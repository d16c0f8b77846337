import CWrapper.WorkerCallbacks

/-!
A request to stop is not lost. The state of a session only goes forward: Starting, then Running or
Stopping, then Exited, then Idle. What a step may do to the state is said once, and the properties
of a session follow from that.
-/
namespace CWrapper.WorkerThread

open Transition

variable {W Th : Type}

def Event.isStarting : Event W Th → Bool
  | .starting _ => true
  | _ => false

def State.session (s : State W Th) : ℕ := s.log.countP Event.isStarting

/-- What a step does to mState, to mStopRequested and to the number of the session. -/
inductive Turns (s s' : State W Th) : Prop
  | stay : s'.mState = s.mState → s'.session = s.session →
      (s.mStopRequested = true → s'.mStopRequested = true) → Turns s s'
  | claim : s'.session = s.session + 1 → Turns s s'
  | release : s.mState = .starting → s'.session = s.session →
      s'.mState = (if s.mStopRequested then .stopping else .running) → Turns s s'
  | stop : s.mState = .running → s'.session = s.session → s'.mState = .stopping → Turns s s'
  | exit : s'.session = s.session → s'.mState = .exited → Turns s s'
  | reset : s'.session = s.session → s'.mState = .idle → Turns s s'

/-- The session `n` is over, or it will not run any more. -/
def State.Doomed (n : ℕ) (s : State W Th) : Prop :=
  n ≤ s.session ∧ (s.session = n →
    s.mState ≠ .running ∧ (s.mState = .starting → s.mStopRequested = true))

/-- The session `n` is over, or start() has released its thread or given up. -/
def State.Begun (n : ℕ) (s : State W Th) : Prop :=
  n ≤ s.session ∧ (s.session = n → s.mState ≠ .starting)

variable {s s' : State W Th} {th : Th} {n : ℕ}

section Session

theorem Turns.doomed (h : Turns s s') (hdoomed : s.Doomed n) : s'.Doomed n := by
  obtain ⟨hle, hdoomed⟩ := hdoomed
  cases h with
  | stay hstate hsession hstop =>
    refine ⟨by omega, fun heq => ?_⟩
    obtain ⟨hrunning, hstarting⟩ := hdoomed (by omega)
    rw [hstate]
    exact ⟨hrunning, fun hs => hstop (hstarting hs)⟩
  | claim hsession => exact ⟨by omega, fun heq => by omega⟩
  | release hstarting hsession hstate =>
    refine ⟨by omega, fun heq => ?_⟩
    rw [hstate, if_pos ((hdoomed (by omega)).2 hstarting)]
    exact ⟨nofun, nofun⟩
  | stop _ hsession hstate | exit hsession hstate | reset hsession hstate =>
    refine ⟨by omega, fun _ => ?_⟩
    rw [hstate]
    exact ⟨nofun, nofun⟩

theorem Turns.begun (h : Turns s s') (hbegun : s.Begun n) : s'.Begun n := by
  obtain ⟨hle, hbegun⟩ := hbegun
  cases h with
  | stay hstate hsession _ =>
    refine ⟨by omega, fun heq => ?_⟩
    rw [hstate]
    exact hbegun (by omega)
  | claim hsession => exact ⟨by omega, fun heq => by omega⟩
  | release hstarting hsession _ =>
    exact ⟨by omega, fun heq => absurd hstarting (hbegun (by omega))⟩
  | stop _ hsession hstate | exit hsession hstate | reset hsession hstate =>
    refine ⟨by omega, fun _ => ?_⟩
    rw [hstate]
    nofun

theorem Logs.not_starting {answer : Answer Th} {c c' : Call W Th} {e : Event W Th}
    (h : Logs answer c e c') : e.isStarting = false := by
  cases h <;> rfl

theorem TaskLogs.not_starting {t t' : Task W} {e : Event W Th} (h : TaskLogs th t e t') :
    e.isStarting = false := by
  cases h <;> rfl

theorem session_emit (s : State W Th) {e : Event W Th} (he : e.isStarting = false) :
    (s.emit e).session = s.session := by
  simp [State.session, State.emit, List.countP_append, he]

end Session

section Steps

theorem shouldRun_iff : s.shouldRun = true ↔ s.mState = .running := by
  simp [State.shouldRun]

variable [DecidableEq Th] {w : W} {answer : Answer Th}

theorem notify_mState (s : State W Th) (th : Th) (k : Notifier) :
    (s.notify th k).mState = s.mState := by
  unfold State.notify
  split <;> rfl

theorem notify_session (s : State W Th) (th : Th) (k : Notifier) :
    (s.notify th k).session = s.session := by
  unfold State.notify
  split <;> rfl

/-- The section of requestStop() dooms a session that is Starting, Running or Stopping. -/
theorem requestStopStep_doomed (k : Requester)
    (hstate : s.mState = .starting ∨ s.mState = .running ∨ s.mState = .stopping) :
    (requestStopStep s th k).Doomed s.session := by
  unfold requestStopStep
  rcases hstate with hstarting | hrunning | hstopping
  · rw [hstarting]
    refine ⟨le_rfl, fun _ => ⟨?_, fun _ => rfl⟩⟩
    show ThreadState.starting ≠ .running
    decide
  · rw [hrunning]
    refine ⟨?_, fun _ => ?_⟩
    · rw [notify_session]
      exact (session_emit s rfl).ge
    · rw [notify_mState]
      show ThreadState.stopping ≠ .running ∧ (ThreadState.stopping = .starting → _)
      exact ⟨by decide, fun hstarting => absurd hstarting (by decide)⟩
  · rw [hstopping]
    refine ⟨le_rfl, fun _ => ⟨?_, fun _ => rfl⟩⟩
    show ThreadState.stopping ≠ .running
    decide

/-- requestStop() dooms the session that it finds in progress. -/
theorem doomed_of_request {k : Requester} (hcall : s.call th = .requestStop k)
    (hstate : s.mState = .starting ∨ s.mState = .running ∨ s.mState = .stopping)
    (hstep : step s (.resume th answer) = some s') : s'.Doomed s.session := by
  have hin : s.inSection th = true := by
    rw [inSection_of_call hcall rfl]
    rfl
  simp only [step, hin, if_true] at hstep
  split at hstep
  · have hbody : requestStopStep { s with mStateLock := none } th k = s' := by
      simp only [body, hcall, Call.isNone] at hstep
      exact Option.some.inj hstep
    rw [← hbody]
    exact requestStopStep_doomed (s := { s with mStateLock := none }) k hstate
  · cases hstep

theorem Turns.taskDoes {t : Task W} (hdoes : TaskDoes s th t s') : Turns s s' := by
  cases hdoes with
  | entry | await =>
    unfold awaitRelease
    split <;> exact .stay rfl rfl id
  | skip => exact .stay rfl rfl id
  | run hlogs => exact .stay rfl (session_emit s hlogs.not_starting) id
  | exit => exact .exit rfl rfl

variable [DecidableEq W] {p : Phase W Th}

theorem Turns.callDoes {c : Call W Th} (hfits : Fits s p) (hcall : s.call th = c)
    (hdoes : CallDoes s th answer c s') : Turns s s' := by
  cases hdoes with
  | logs hlogs => exact .stay rfl (session_emit s hlogs.not_starting) id
  | create _ _ _ _ _ => exact .stay rfl (session_emit s rfl) id
  | resets _ => exact .reset rfl rfl
  | claim w _ =>
    refine .claim ?_
    show (s.log ++ [Event.starting w]).countP Event.isStarting = _
    rw [List.countP_append]
    rfl
  | handshakeRun _ _ _ hstop =>
    refine .release (hfits.handshaking hcall) rfl ?_
    rw [hstop]
    rfl
  | handshakeStop _ _ _ hstop =>
    refine .release (hfits.handshaking hcall) ?_ ?_
    · rw [notify_session]
      exact session_emit s rfl
    · rw [notify_mState, if_pos hstop]
      rfl
  | request _ _ => exact .stay rfl rfl fun _ => rfl
  | stop _ hrunning =>
    refine .stop hrunning ?_ (notify_mState ..)
    rw [notify_session]
    exact session_emit s rfl
  | goes | acquire | release | handshakeBlock | delivered | join | joinBlock | take | sleepBlock
  | sleepEnd => exact .stay rfl rfl id

theorem Turns.does (hfits : Fits s p) (hdoes : Does s th answer s') : Turns s s' := by
  cases hdoes with
  | call hcall hdoes => exact .callDoes hfits hcall hdoes
  | task _ _ hdoes => exact .taskDoes hdoes

/-- The turns of mState, by what the step does. -/
theorem Turns.step (hfits : Fits s p) {a : Action W Th} (hmoves : Moves s a s') :
    Turns s s' := by
  cases hmoves with
  | call _ _ | lock _ _ _ | wakeup | expire _ => exact .stay rfl rfl id
  | inside _ _ hdoes =>
    have hfits' := hfits.waits none s.mStateCv s.mSleepCv s.mStopRequested s.mWakeupRequested
    cases Turns.does hfits' hdoes with
    | stay hstate hsession hstop => exact .stay hstate hsession hstop
    | claim hsession => exact .claim hsession
    | release hstarting hsession hstate => exact .release hstarting hsession hstate
    | stop hrunning hsession hstate => exact .stop hrunning hsession hstate
    | exit hsession hstate => exact .exit hsession hstate
    | reset hsession hstate => exact .reset hsession hstate
  | outside _ hdoes => exact .does hfits hdoes

end Steps

section Requests

variable [DecidableEq W] [DecidableEq Th] {as : List (Action W Th)}

/-- What every turn of a session keeps, a run keeps. -/
theorem Turns.along {I : State W Th → Prop} (hI : ∀ s s', Turns s s' → I s → I s')
    (hs : (machine W Th).Reachable Machine.anyStep s)
    (hpath : (machine W Th).Path Machine.anyStep s as s') (hi : I s) : I s' := by
  refine (hpath.keeps (I := fun s => (machine W Th).Reachable Machine.anyStep s ∧ I s) ?_
    ⟨hs, hi⟩).2
  rintro s a s' hok hstep ⟨hs, hi⟩
  obtain ⟨⟨p, hfits⟩, -⟩ := fits_and_waits hs
  exact ⟨hs.step hok hstep, hI s s' (.step hfits (step_moves hstep)) hi⟩

/-- After the section of requestStop() the session does not run; a session does not run again; when
a new one begins, no thread of an old one is left; and the worker sleeps in msleep only while it
should run. -/
theorem stop_requests_kept (hs : (machine W Th).Reachable Machine.anyStep s) :
    (∀ th k answer s' as s'', s.call th = .requestStop k →
      s.mState = .starting ∨ s.mState = .running ∨ s.mState = .stopping →
      step s (.resume th answer) = some s' → (machine W Th).Path Machine.anyStep s' as s'' →
      s''.session = s.session → s''.shouldRun = false) ∧
    (s.shouldRun = true → ∀ as s' as' s'', (machine W Th).Path Machine.anyStep s as s' →
      s'.shouldRun = false → (machine W Th).Path Machine.anyStep s' as' s'' →
      s''.session = s.session → s''.shouldRun = false) ∧
    (∀ th w, s.call th = .start w .claim → s.mState = .idle → ∀ th', s.task th' = .none) ∧
    ∀ th, s.mSleepCv th = true → s.shouldRun = true := by
  obtain ⟨⟨p, hfits⟩, hwaits⟩ := fits_and_waits hs
  refine ⟨fun th k answer s' as s'' hcall hstate hstep hpath hsession => ?_,
    fun hrun as s' as' s'' hpath hstop hpath' hsession => ?_, fun th w hcall hidle th' => ?_,
    fun th hth => shouldRun_iff.mpr (hwaits.sleep th hth).2.1⟩
  · have hdoomed := doomed_of_request hcall hstate hstep
    have hkept := Turns.along (fun _ _ h => h.doomed)
      (hs.step (a := .resume th answer) trivial hstep) hpath hdoomed
    exact Bool.eq_false_iff.mpr fun htrue => (hkept.2 hsession).1 (shouldRun_iff.mp htrue)
  · have hbegun : s.Begun s.session := ⟨le_rfl, fun _ => by rw [shouldRun_iff.mp hrun]; nofun⟩
    have hbegun' := Turns.along (fun _ _ h => h.begun) hs hpath hbegun
    have hdoomed : s'.Doomed s.session := by
      refine ⟨hbegun'.1, fun heq => ⟨fun hrunning => ?_, fun hs' => ?_⟩⟩
      · rw [shouldRun_iff.mpr hrunning] at hstop
        cases hstop
      · exact absurd hs' (hbegun'.2 heq)
    have hkept := Turns.along (fun _ _ h => h.doomed) (hs.path hpath) hpath' hdoomed
    exact Bool.eq_false_iff.mpr fun htrue => (hkept.2 hsession).1 (shouldRun_iff.mp htrue)
  · rw [hfits.task, hfits.idle hidle th (by rw [hcall]; rfl) (by rw [hcall]; rfl)]
    rfl

/-- requestStop() has the lock of its section while the session is running. -/
def requesting : State Bool Bool :=
  (machine Bool Bool).after Machine.anyStep start
    (started ++ [.call false .requestStop, .lock false])

theorem stop_requests_kept_running : requesting.shouldRun = true ∧
    ((machine Bool Bool).next requesting (.resume false .yes)).shouldRun = false := by
  have hs : (machine Bool Bool).Reachable Machine.anyStep requesting :=
    Machine.reachable_after rfl (by decide +kernel)
  have hrun : requesting.shouldRun = true := by decide +kernel
  have hstep : step requesting (.resume false .yes) =
      some ((machine Bool Bool).next requesting (.resume false .yes)) :=
    Machine.eq_some_getD (by decide +kernel) requesting
  exact ⟨hrun, (stop_requests_kept hs).1 false .user .yes _ [] _ rfl
    (Or.inr (Or.inl (shouldRun_iff.mp hrun))) hstep (.nil _) (by decide +kernel)⟩

end Requests

end CWrapper.WorkerThread
