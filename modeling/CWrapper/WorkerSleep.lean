import CWrapper.WorkerEntries
import CWrapper.WorkerStop

/-!
What ends the wait of msleep. mWakeupRequested is set together with a request to stop, and the state
is not Running from then on, so as long as the worker should run its sleep lasts until its time is
over.
-/
namespace CWrapper.WorkerThread

open Transition

variable {W Th : Type} {s s' : State W Th} {th : Th}

/-- A wake-up has been requested together with a stop, and a running session has no request. -/
structure Awake (s : State W Th) : Prop where
  requested : s.mWakeupRequested = true → s.mStopRequested = true
  running : s.mState = .running → s.mStopRequested = false

/-- A step that leaves the three members, or only takes the wake-up back. -/
theorem Awake.keep (h : Awake s) (hstate : s'.mState = s.mState)
    (hstop : s'.mStopRequested = s.mStopRequested)
    (hwakeup : s'.mWakeupRequested = true → s.mWakeupRequested = true) : Awake s' where
  requested hw := hstop.trans (h.requested (hwakeup hw))
  running hr := hstop.trans (h.running (hstate ▸ hr))

/-- A step after which the session is not running. -/
theorem awake_of_not_running (hstate : s'.mState ≠ .running)
    (hwakeup : s'.mWakeupRequested = true → s'.mStopRequested = true) : Awake s' where
  requested := hwakeup
  running hr := absurd hr hstate

variable [DecidableEq Th] {answer : Answer Th}

theorem Awake.notify (h : Awake s) (th : Th) (k : Notifier) : Awake (s.notify th k) := by
  unfold State.notify
  split <;> exact h.keep rfl rfl id

theorem Awake.callDoes {c : Call W Th} (h : Awake s) (hdoes : CallDoes s th answer c s') :
    Awake s' := by
  cases hdoes with
  | resets | claim => exact awake_of_not_running nofun nofun
  | handshakeRun _ _ _ hstop => exact ⟨h.requested, fun _ => hstop⟩
  | handshakeStop _ _ _ hstop =>
    refine Awake.notify ?_ th .start
    exact awake_of_not_running nofun fun _ => hstop
  | request k hstate =>
    refine awake_of_not_running ?_ fun _ => rfl
    show s.mState ≠ .running
    obtain hstate | hstate := hstate <;> simp [hstate]
  | stop k _ =>
    refine Awake.notify ?_ th (.requestStop k)
    exact awake_of_not_running nofun fun _ => rfl
  | sleepEnd => exact h.keep rfl rfl Bool.noConfusion
  | goes | logs | acquire | release | create | handshakeBlock | delivered | join | joinBlock
  | take | sleepBlock => exact h.keep rfl rfl id

theorem Awake.taskDoes {t : Task W} (h : Awake s) (hdoes : TaskDoes s th t s') : Awake s' := by
  cases hdoes with
  | entry | await =>
    unfold awaitRelease
    split <;> exact h.keep rfl rfl id
  | skip | run => exact h.keep rfl rfl id
  | exit => exact awake_of_not_running nofun h.requested

/-- A request to wake up comes from a stop, and a stop ends the running session. -/
theorem Awake.step (h : Awake s) {a : Action W Th} (hmoves : Moves s a s') : Awake s' := by
  have hdoes {s : State W Th} {th : Th} {answer : Answer Th} (h : Awake s)
      (hdoes : Does s th answer s') :
      Awake s' := by
    cases hdoes with
    | call _ hdoes => exact h.callDoes hdoes
    | task _ _ hdoes => exact h.taskDoes hdoes
  cases hmoves with
  | inside _ _ hstep => exact hdoes (s := { s with mStateLock := none }) (h.keep rfl rfl id) hstep
  | outside _ hstep => exact hdoes h hstep
  | call | lock | wakeup | expire => exact h.keep rfl rfl id

/-- In every reachable state a running session has no stop requested, and no wake-up without one. -/
theorem awake_reachable (hs : (machine W Th).Reachable Machine.anyStep s) : Awake s := by
  have hinv : (machine W Th).Invariant Machine.anyStep (fun _ => True) Awake := by
    refine ⟨?_, fun s a s' _ _ hstep h => h.step (step_moves hstep)⟩
    rintro s rfl
    exact awake_of_not_running nofun nofun
  exact hinv.always hs

/-- The worker should run, and the time of the thread's wait in msleep is not over. -/
def State.sleepsOn (th : Th) (s : State W Th) : Action W Th → Bool
  | .expire u => s.shouldRun && decide (u ≠ th)
  | _ => s.shouldRun

/-- A step does not end the wait: the predicate is false when the thread tests it again. -/
theorem msleep_waits (hs : (machine W Th).Reachable Machine.anyStep s)
    (hcall : s.call th = .msleep .wait) {a : Action W Th} (hok : s.sleepsOn th a = true)
    (hstep : step s a = some s') : s'.call th = .msleep .wait := by
  have hother {u : Th} (hu : th ≠ u) (c : Call W Th) :
      Function.update s.call u c th = .msleep .wait := by
    rw [Function.update_of_ne hu, hcall]
  have hmoves := step_moves hstep
  cases a with
  | call u e =>
    cases hmoves with
    | call hnone _ =>
    refine hother (fun heq => ?_) e.point
    rw [← heq, hcall] at hnone
    cases hnone
  | lock u | wakeup u =>
    cases hmoves
    exact hcall
  | expire u =>
    cases hmoves
    have hu : s.shouldRun = true ∧ u ≠ th := by simpa [State.sleepsOn] using hok
    exact hother hu.2.symm _
  | resume u answer =>
    have hrun : s.mState = .running := shouldRun_iff.mp hok
    by_cases hu : th = u
    · subst hu
      have hawake := awake_reachable hs
      obtain ⟨lock, hdoes⟩ := callDoes_of_resume hstep (by rw [hcall]; rfl)
      rw [hcall] at hdoes
      cases hdoes with
      | goes hleads => cases hleads
      | logs hlogs => cases hlogs
      | resets hresets => cases hresets
      | sleepBlock => exact Function.update_self ..
      | sleepEnd _ hend =>
        obtain heq | hstate | hwakeup := hend
        · cases heq
        · exact absurd hrun hstate
        · have hstop := hawake.requested hwakeup
          rw [hawake.running hrun] at hstop
          cases hstop
    · obtain ⟨-, hcalls, -⟩ | ⟨-, hlocal⟩ := resume_cases hstep
      · rw [hcalls, hcall]
      · rw [hlocal.call th hu, hcall]

/-- As long as the worker should run and the time is not over, a thread stays in the wait of
msleep. -/
theorem msleep_lasts (hs : (machine W Th).Reachable Machine.anyStep s)
    (hcall : s.call th = .msleep .wait) {as : List (Action W Th)}
    (hpath : (machine W Th).Path (fun s a => s.sleepsOn th a = true) s as s') :
    s'.call th = .msleep .wait := by
  refine (hpath.keeps (I := fun s => (machine W Th).Reachable Machine.anyStep s ∧
    s.call th = .msleep .wait) ?_ ⟨hs, hcall⟩).2
  intro s a s' hok hstep hi
  exact ⟨hi.1.step trivial hstep, msleep_waits hi.1 hi.2 hok hstep⟩

def sleeping : State Bool Bool :=
  (machine Bool Bool).after Machine.anyStep start
    (started ++ inLock true ++ [.resume true .yes, .call true .msleep] ++ inLock true)

/-- `true` is woken without a reason, and tests the predicate again. -/
def sleepingOn : State Bool Bool :=
  (machine Bool Bool).after (fun s a => s.sleepsOn true a = true) sleeping
    (.wakeup true :: inLock true)

theorem msleep_lasts_wakeup : sleeping.mSleepCv true = true ∧
    sleepingOn.call true = .msleep .wait := by
  have hs : (machine Bool Bool).Reachable Machine.anyStep sleeping :=
    Machine.reachable_after rfl (by decide +kernel)
  exact ⟨by decide +kernel, msleep_lasts hs (by rfl) (Machine.path_after (by decide +kernel))⟩

end CWrapper.WorkerThread
