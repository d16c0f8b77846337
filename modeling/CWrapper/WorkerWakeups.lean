import CWrapper.WorkerSteps
import CWrapper.WorkerWaits

/-!
Every step keeps it that a thread which is blocked and not woken waits for something that has not
happened yet.
-/
namespace CWrapper.WorkerThread

open Transition

variable {W Th : Type} {s s' : State W Th} {th : Th} {c : Call W Th}

section Steps

variable [DecidableEq Th] {w : W} {answer : Answer Th}

/-- A section may end with its broadcasts and go on to onStopRequested. -/
theorem Waits.notify (h : Waits s) (hth : Acts s th) (k : Notifier) : Waits (s.notify th k) := by
  unfold State.notify
  split
  · have hmore : Waits { s with mCallbacksInProgress := s.mCallbacksInProgress + 1 } := by
      refine ⟨h.lock, fun th' hth' => ?_, h.sleep⟩
      cases h.state th' hth' with
      | ready hcall hpred => exact .ready hcall hpred
      | callbacks hcall hpred => exact .callbacks hcall (Nat.succ_ne_zero _)
      | released hcall htask hpred => exact .released hcall htask hpred
    exact hmore.goto ⟨hth.unlocked, hth.state, hth.sleep⟩
  · exact h.goto hth

/-- After a reset all flags are clear and nobody is blocked. -/
theorem Waits.reset (h : Waits s) (hth : Acts s th) :
    Waits (s.resetStateLocked.broadcastState.broadcastSleep.goto th c) := by
  have hdata := h.data none none s.mLifecycleLock false s.log
  have hwoken := (hdata.wakeState false false 0).wakeSleep .idle false
  exact hwoken.goto ⟨hth.unlocked, rfl, rfl⟩

theorem Waits.claim (h : Waits s) (hth : Acts s th) (hidle : s.mState = .idle)
    (hcount : s.mCallbacksInProgress = 0) : Waits ((s.claimed w).goto th c) := by
  have hnone := h.noSleeper (by rw [hidle]; nofun)
  refine Waits.goto ⟨h.lock, fun th' hth' => ?_, fun th' hth' => ?_⟩
    ⟨hth.unlocked, hth.state, hth.sleep⟩
  · cases h.state th' hth' with
    | ready hcall hpred => exact .ready hcall rfl
    | callbacks hcall hpred => exact absurd hcount hpred
    | released hcall htask hpred => exact .released hcall htask rfl
  · rw [show (s.claimed w).mSleepCv = fun _ => false from hnone] at hth'
    cases hth'

/-- The thread that is given an identity is in no section, and so is the one that has ended. -/
theorem Waits.create (h : Waits s) (hth : Acts s th) {id : Th} (htask : s.task id = .none) :
    Waits (((s.emit (.created id)).gotoTask id .entry).goto th c) := by
  have hcreated : Waits ((s.emit (.created id)).gotoTask id .entry) :=
    (h.emit (.created id)).taskOf (by
      show (s.task id).isSection = false
      rw [htask]
      rfl)
  exact hcreated.goto ⟨hth.unlocked, hth.state, hth.sleep⟩

theorem Waits.join (h : Waits s) (hth : Acts s th) {id : Th} (htask : s.task id = .exited) :
    Waits ((s.gotoTask id .none).goto th c) := by
  have hjoined : Waits (s.gotoTask id .none) := h.taskOf (by rw [htask]; rfl)
  exact hjoined.goto ⟨hth.unlocked, hth.state, hth.sleep⟩

theorem Waits.awaitRelease (h : Waits s) (hth : Acts s th) (hlock : s.mStateLock = none)
    (hcall : s.call th = .none) : Waits (awaitRelease s th) := by
  unfold WorkerThread.awaitRelease
  split
  · exact h.gotoTask hth
  · rename_i hreleased
    have hmoved : Waits (s.gotoTask th .await) := h.gotoTask hth
    have hfalse : s.mStartReleased = false := by simpa using hreleased
    exact hmoved.block hlock (.released hcall (Function.update_self ..) hfalse)

theorem Waits.taskDoes {t : Task W} (h : Waits s) (hth : Acts s th)
    (hlock : s.inSection th = true → s.mStateLock = none) (hcall : s.call th = .none)
    (htask : s.task th = t) (hdoes : TaskDoes s th t s') : Waits s' := by
  have hfree (hsection : t.isSection = true) : s.mStateLock = none :=
    hlock (by rw [inSection_of_task hcall, htask, hsection])
  cases hdoes with
  | entry =>
    have hready := h.wakeState true s.mStartReleased s.mCallbacksInProgress
    exact hready.awaitRelease ⟨hth.unlocked, rfl, hth.sleep⟩ (hfree rfl) hcall
  | await => exact h.awaitRelease hth (hfree rfl) hcall
  | skip => exact h.gotoTask hth
  | run _ => exact (h.emit _).gotoTask ⟨hth.unlocked, hth.state, hth.sleep⟩
  | exit =>
    have hwoken := (h.wakeState s.mThreadReady s.mStartReleased s.mCallbacksInProgress).wakeSleep
      .exited s.mWakeupRequested
    exact hwoken.gotoTask ⟨hth.unlocked, rfl, rfl⟩

variable [DecidableEq W] {p : Phase W Th}

theorem Waits.callDoes {c₀ : Call W Th} (h : Waits s) (hfits : Fits s p) (hth : Acts s th)
    (hlock : s.inSection th = true → s.mStateLock = none) (hcall : s.call th = c₀)
    (hdoes : CallDoes s th answer c₀ s') : Waits s' := by
  have hfree (hc : c₀.isNone = false) (hsection : c₀.isSection = true) : s.mStateLock = none :=
    hlock (by rw [inSection_of_call hcall hc, hsection])
  have hdata (lock : Option Th) (mWorker : Option W) (c : Call W Th) :
      Waits ({ s with mLifecycleLock := lock, mWorker := mWorker }.goto th c) :=
    (h.data mWorker s.mId lock s.mStopRequested s.log).goto ⟨hth.unlocked, hth.state, hth.sleep⟩
  have hrequest (mState : ThreadState) (log : List (Event W Th)) :=
    ((h.data s.mWorker s.mId s.mLifecycleLock true log).wakeState s.mThreadReady s.mStartReleased
      s.mCallbacksInProgress).wakeSleep mState true
  have hstored (createdId : Option Th) : Waits (s.stored createdId) :=
    h.data s.mWorker (createdId.or s.mId) s.mLifecycleLock s.mStopRequested s.log
  cases hdoes with
  | goes _ => exact h.goto hth
  | logs _ => exact (h.emit _).goto ⟨hth.unlocked, hth.state, hth.sleep⟩
  | resets _ => exact h.reset hth
  | acquire op _ => exact hdata (some th) s.mWorker _
  | release => exact hdata none s.mWorker _
  | claim w hidle =>
    refine h.claim hth hidle ?_
    rw [hfits.callbacks, hfits.idle hidle th (by rw [hcall]; rfl) (by rw [hcall]; rfl)]
    rfl
  | create w id _ _ htask => exact h.create hth htask
  | handshakeBlock w createdId hready =>
    have hmoved : Waits ((s.stored createdId).goto th (.start w (.handshake none))) :=
      (hstored createdId).goto ⟨hth.unlocked, hth.state, hth.sleep⟩
    exact hmoved.block (hfree rfl rfl) (.ready (Function.update_self ..) hready)
  | handshakeRun w createdId _ _ =>
    have hstarting : s.mState ≠ .running := by
      rw [hfits.handshaking hcall]
      decide
    have hwoken := ((hstored createdId).wakeState s.mThreadReady true
      s.mCallbacksInProgress).setState hstarting .running
    exact hwoken.goto ⟨hth.unlocked, rfl, hth.sleep⟩
  | handshakeStop w createdId _ _ =>
    have hwoken := (((hstored createdId).emit .stopping).wakeState s.mThreadReady true
      s.mCallbacksInProgress).wakeSleep .stopping true
    exact hwoken.notify ⟨hth.unlocked, rfl, rfl⟩ .start
  | request k _ => exact (hrequest s.mState s.log).goto ⟨hth.unlocked, rfl, rfl⟩
  | stop k _ =>
    exact (hrequest .stopping (s.log ++ [Event.stopping])).notify ⟨hth.unlocked, rfl, rfl⟩ _
  | delivered k w =>
    exact (h.wakeState s.mThreadReady s.mStartReleased _).goto ⟨hth.unlocked, rfl, hth.sleep⟩
  | join op id _ hexited => exact h.join hth hexited
  | joinBlock op hcount =>
    have hmoved : Waits (s.goto th (.joinLocked op .await)) := h.goto hth
    exact hmoved.block (hfree rfl rfl) (.callbacks (Function.update_self ..) hcount)
  | take op w _ _ => exact hdata s.mLifecycleLock none _
  | sleepBlock pt hstate hwakeup =>
    have hmoved : Waits (s.goto th (.msleep .wait)) := h.goto hth
    exact hmoved.blockSleep (hfree rfl rfl) (Function.update_self ..) hstate hwakeup
  | sleepEnd pt _ => exact h.clearWakeup.goto ⟨hth.unlocked, hth.state, hth.sleep⟩

theorem Waits.does (h : Waits s) (hfits : Fits s p) (hth : Acts s th)
    (hlock : s.inSection th = true → s.mStateLock = none) (hdoes : Does s th answer s') :
    Waits s' := by
  cases hdoes with
  | call hcall hdoes => exact h.callDoes hfits hth hlock hcall hdoes
  | task hcall htask hdoes => exact h.taskDoes hth hlock hcall htask hdoes

/-- After a step as before it, whoever is in a condition variable waits for what has not come yet.
-/
theorem Waits.step (h : Waits s) (hfits : Fits s p) {a : Action W Th} (hmoves : Moves s a s') :
    Waits s' := by
  cases hmoves with
  | @call th e hcall hmay =>
    refine h.goto (h.acts ?_)
    rw [inSection_of_task hcall]
    cases htask : s.task th <;> simp [htask, Task.mayCall] at hmay <;> rfl
  | @lock th hin hawake hfree =>
    refine ⟨fun th' hth' => ?_, fun th' hth' => ?_, h.sleep⟩
    · obtain rfl : th = th' := Option.some.inj hth'
      exact ⟨hin, hawake⟩
    · exact (h.state th' hth').of_eq rfl rfl rfl rfl rfl
  | inside _ hlock hdoes =>
    obtain ⟨hopen, hth⟩ := h.unlock hlock
    have hfits' := hfits.waits none s.mStateCv s.mSleepCv s.mStopRequested s.mWakeupRequested
    exact hopen.does hfits' hth (fun _ => rfl) hdoes
  | outside hout hdoes =>
    exact h.does hfits (h.acts hout) (fun hin => absurd hin (by simp [hout])) hdoes
  | @wakeup th => exact h.wakeup th
  | @expire th hasleep =>
    have hstate : s.mStateCv th = false := by
      by_contra hblocked
      cases h.state th (by simpa using hblocked) with
      | ready hcall _ | callbacks hcall _ | released hcall _ _ =>
        rw [(h.sleep th hasleep).1] at hcall
        cases hcall
    have hwoken := h.wakeup th
    rw [← hstate, Function.update_eq_self, hstate] at hwoken
    refine hwoken.goto ⟨fun hlock => ?_, hstate, Function.update_self ..⟩
    have hawake := (h.lock th hlock).2
    rw [State.asleep, hasleep, Bool.or_true] at hawake
    cases hawake

end Steps

end CWrapper.WorkerThread
