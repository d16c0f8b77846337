import CWrapper.WorkerThread

/-!
What one step of a thread can do. The relation is read off the program once: a thread goes to
another point, or logs what it does there, or changes the object as well, and the hypotheses say
where it was and what it found.
-/
namespace CWrapper.WorkerThread

variable {W Th : Type}

def Operation.locked : Operation W → Call W Th
  | .stop => .requestStop .stop
  | op => .load op

theorem isNone_iff {c : Call W Th} : (c.isNone = true) ↔ c = .none := by
  cases c <;> simp [Call.isNone]

theorem task_isNone_iff {t : Task W} : t.isNone = true ↔ t = .none := by
  cases t <;> simp [Task.isNone]

inductive Logs (answer : Answer Th) : Call W Th → Event W Th → Call W Th → Prop
  | attrInitFailed (w : W) : answer = .no →
      Logs answer (.start w (.prepare .attrInit)) .attrInitFailed
        (.start w (.prepare (.reset false)))
  | prepareBegin (w : W) :
      Logs answer (.start w (.prepare .onPrepare)) (.prepareBegin w)
        (.start w (.prepare .inPrepare))
  | prepared (w : W) : answer = .yes →
      Logs answer (.start w (.prepare .inPrepare)) (.prepareEnd w true)
        (.start w (.prepare .create))
  | prepareFailed (w : W) : answer = .no →
      Logs answer (.start w (.prepare .inPrepare)) (.prepareEnd w false)
        (.start w (.prepare (.reset false)))
  | createFailed (w : W) : answer = .no →
      Logs answer (.start w (.prepare .create)) .createFailed
        (.start w (.prepare (.reset true)))
  | failedBegin (w : W) :
      Logs answer (.start w (.cleanup false)) (.cleanupBegin w) (.start w (.cleanup true))
  | failedEnd (w : W) : Logs answer (.start w (.cleanup true)) (.cleanupEnd w) .unlock
  | stopBegin (k : Notifier) (w : W) :
      Logs answer (.onStopRequested k w .enter) (.stopBegin w) (.onStopRequested k w .inside)
  | stopEnd (k : Notifier) (w : W) :
      Logs answer (.onStopRequested k w .inside) (.stopEnd w) (.onStopRequested k w .leave)
  | cleanupBegin (op : Operation W) (w : W) :
      Logs answer (.joinLocked op (.cleanup w false)) (.cleanupBegin w)
        (.joinLocked op (.cleanup w true))
  | cleanupEnd (op : Operation W) (w : W) :
      Logs answer (.joinLocked op (.cleanup w true)) (.cleanupEnd w) (.joinLocked op .reset)

inductive TaskLogs (th : Th) : Task W → Event W Th → Task W → Prop
  | runBegin (w : W) : TaskLogs th (.released (some w)) (.runBegin th w) (.run w)
  | runEnd (w : W) : TaskLogs th (.run w) (.runEnd th w) .exit

theorem TaskLogs.inTask {th : Th} {t t' : Task W} {e : Event W Th} (h : TaskLogs th t e t') :
    t ≠ .none ∧ t'.isNone = false := by
  cases h <;> exact ⟨nofun, rfl⟩

/-- The points of the two resets, and where they lead. -/
inductive Resets : Call W Th → Call W Th → Prop
  | failed (w : W) : Resets (.start w (.prepare (.reset true))) (.start w (.cleanup false))
  | refused (w : W) : Resets (.start w (.prepare (.reset false))) .unlock
  | join (op : Operation W) : Resets (.joinLocked op .reset) op.back

theorem Logs.isNone {answer : Answer Th} {c c' : Call W Th} {e : Event W Th}
    (h : Logs answer c e c') : c.isNone = false := by
  cases h <;> rfl

def State.claimed (s : State W Th) (w : W) : State W Th :=
  { s with
    mWorker := some w
    mId := none
    mStopRequested := false
    mThreadReady := false
    mStartReleased := false
    mWakeupRequested := false
    mCallbacksInProgress := 0
    mState := .starting }.emit (.starting w)

def State.stored (s : State W Th) (createdId : Option Th) : State W Th :=
  { s with mId := createdId.or s.mId }

variable [DecidableEq Th]

inductive Leads (s : State W Th) (th : Th) (answer : Answer Th) : Call W Th → Call W Th → Prop
  | isCurrentThread (op : Operation W) :
      Leads s th answer (.isCurrentThread op) (op.decided (s.isCurrentThread th))
  | load (op : Operation W) : Leads s th answer (.load op) (op.proceed s.mState)
  | claim (w : W) : s.mState ≠ .idle → Leads s th answer (.start w .claim) .unlock
  | attrInit (w : W) : answer = .yes →
      Leads s th answer (.start w (.prepare .attrInit)) (.start w (.prepare .onPrepare))
  | request (k : Requester) : s.mState = .idle ∨ s.mState = .exited →
      Leads s th answer (.requestStop k) k.back
  | readNone (op : Operation W) : s.mState = .idle ∨ s.mState = .starting →
      Leads s th answer (.joinLocked op .read) op.back
  | read (op : Operation W) : s.mState ≠ .idle → s.mState ≠ .starting →
      Leads s th answer (.joinLocked op .read) (.joinLocked op (.pthreadJoin s.mId))
  | joinFails (op : Operation W) (threadId : Option Th) : answer = .no →
      Leads s th answer (.joinLocked op (.pthreadJoin threadId)) op.back
  | noWorker (op : Operation W) : s.mCallbacksInProgress = 0 → s.mWorker = none →
      Leads s th answer (.joinLocked op .await) (.joinLocked op .reset)
  | msleep : (s.isCurrentThread th = true → s.mState = .stopping) →
      Leads s th answer (.msleep .enter) .none

/-- What a step of a thread does from a point of a call, where mStateLock is free or the step needs
no lock. -/
inductive CallDoes (s : State W Th) (th : Th) (answer : Answer Th) :
    Call W Th → State W Th → Prop
  | goes {c c' : Call W Th} : Leads s th answer c c' → CallDoes s th answer c (s.goto th c')
  | logs {c c' : Call W Th} {e : Event W Th} : Logs answer c e c' →
      CallDoes s th answer c ((s.emit e).goto th c')
  | resets {c c' : Call W Th} : Resets c c' →
      CallDoes s th answer c (s.resetStateLocked.broadcastState.broadcastSleep.goto th c')
  | acquire (op : Operation W) : s.mLifecycleLock = none →
      CallDoes s th answer (.lockLifecycle op)
        ({ s with mLifecycleLock := some th }.goto th op.locked)
  | release : CallDoes s th answer .unlock ({ s with mLifecycleLock := none }.goto th .none)
  | claim (w : W) : s.mState = .idle →
      CallDoes s th answer (.start w .claim)
        ((s.claimed w).goto th (.start w (.prepare .attrInit)))
  | create (w : W) (id : Th) : answer = .thread id → s.call id = .none → s.task id = .none →
      CallDoes s th answer (.start w (.prepare .create))
        (((s.emit (.created id)).gotoTask id .entry).goto th (.start w (.handshake (some id))))
  | handshakeBlock (w : W) (createdId : Option Th) : s.mThreadReady = false →
      CallDoes s th answer (.start w (.handshake createdId))
        (((s.stored createdId).waitState th).goto th (.start w (.handshake none)))
  | handshakeRun (w : W) (createdId : Option Th) : s.mThreadReady = true →
      s.mStopRequested = false →
      CallDoes s th answer (.start w (.handshake createdId))
        ({ s.stored createdId with
          mState := .running, mStartReleased := true }.broadcastState.goto th .unlock)
  | handshakeStop (w : W) (createdId : Option Th) : s.mThreadReady = true →
      s.mStopRequested = true →
      CallDoes s th answer (.start w (.handshake createdId))
        ((({ s.stored createdId with
          mState := .stopping, mStartReleased := true, mWakeupRequested := true }.emit
            .stopping).broadcastSleep.broadcastState).notify th .start)
  | request (k : Requester) : s.mState = .starting ∨ s.mState = .stopping →
      CallDoes s th answer (.requestStop k)
        ({ s with
          mStopRequested := true, mWakeupRequested := true }.broadcastState.broadcastSleep.goto th
            k.back)
  | stop (k : Requester) : s.mState = .running →
      CallDoes s th answer (.requestStop k)
        ((({ s with
          mStopRequested := true, mWakeupRequested := true, mState := .stopping }.emit
            .stopping).broadcastState.broadcastSleep).notify th (.requestStop k))
  | delivered (k : Notifier) (w : W) :
      CallDoes s th answer (.onStopRequested k w .leave)
        ({ s with
          mCallbacksInProgress := s.mCallbacksInProgress - 1 }.broadcastState.goto th k.back)
  | join (op : Operation W) (id : Th) : answer = .yes → s.task id = .exited →
      CallDoes s th answer (.joinLocked op (.pthreadJoin (some id)))
        ((s.gotoTask id .none).goto th (.joinLocked op .await))
  | joinBlock (op : Operation W) : s.mCallbacksInProgress ≠ 0 →
      CallDoes s th answer (.joinLocked op .await)
        ((s.waitState th).goto th (.joinLocked op .await))
  | take (op : Operation W) (w : W) : s.mCallbacksInProgress = 0 → s.mWorker = some w →
      CallDoes s th answer (.joinLocked op .await)
        ({ s with mWorker := none }.goto th (.joinLocked op (.cleanup w false)))
  | sleepBlock (pt : SleepPoint) : s.mState = .running → s.mWakeupRequested = false →
      CallDoes s th answer (.msleep pt)
        ({ s with mSleepCv := Function.update s.mSleepCv th true }.goto th (.msleep .wait))
  | sleepEnd (pt : SleepPoint) :
      pt = .expired ∨ s.mState ≠ .running ∨ s.mWakeupRequested = true →
      CallDoes s th answer (.msleep pt) ({ s with mWakeupRequested := false }.goto th .none)

inductive TaskDoes (s : State W Th) (th : Th) : Task W → State W Th → Prop
  | entry : TaskDoes s th .entry (awaitRelease { s with mThreadReady := true }.broadcastState th)
  | await : TaskDoes s th .await (awaitRelease s th)
  | skip : TaskDoes s th (.released none) (s.gotoTask th .exit)
  | run {t t' : Task W} {e : Event W Th} : TaskLogs th t e t' →
      TaskDoes s th t ((s.emit e).gotoTask th t')
  | exit : TaskDoes s th .exit
      ({ s with mState := .exited }.broadcastState.broadcastSleep.gotoTask th .exited)

inductive Does (s : State W Th) (th : Th) (answer : Answer Th) (s' : State W Th) : Prop
  | call {c : Call W Th} : s.call th = c → CallDoes s th answer c s' → Does s th answer s'
  | task {t : Task W} : s.call th = .none → s.task th = t → TaskDoes s th t s' →
      Does s th answer s'

inductive Moves (s : State W Th) : Action W Th → State W Th → Prop
  | call {th : Th} {e : Entry W} : s.call th = .none → (s.task th).mayCall = true →
      Moves s (.call th e) (s.goto th e.point)
  | lock {th : Th} : s.inSection th = true → s.asleep th = false → s.mStateLock = none →
      Moves s (.lock th) { s with mStateLock := some th }
  | inside {th : Th} {answer : Answer Th} {s' : State W Th} : s.inSection th = true →
      s.mStateLock = some th → Does { s with mStateLock := none } th answer s' →
      Moves s (.resume th answer) s'
  | outside {th : Th} {answer : Answer Th} {s' : State W Th} : s.inSection th = false →
      Does s th answer s' → Moves s (.resume th answer) s'
  | wakeup {th : Th} : Moves s (.wakeup th) { s with
      mStateCv := Function.update s.mStateCv th false
      mSleepCv := Function.update s.mSleepCv th false }
  | expire {th : Th} : s.mSleepCv th = true →
      Moves s (.expire th) ({ s with mSleepCv := Function.update s.mSleepCv th false }.goto th
        (.msleep .expired))

variable {s s' : State W Th} {th : Th} {answer : Answer Th} {w : W}

/-- start() from the claim of the object to pthread_create, by the point. -/
theorem prepareStep_does {pt : Preparation} (hstep : prepareStep s th w answer pt = some s') :
    CallDoes s th answer (.start w (.prepare pt)) s' := by
  cases pt with
  | attrInit =>
    cases answer with
    | yes =>
      obtain rfl := Option.some.inj hstep
      exact .goes (.attrInit w rfl)
    | no =>
      obtain rfl := Option.some.inj hstep
      exact .logs (.attrInitFailed w rfl)
    | thread id => cases hstep
  | onPrepare =>
    obtain rfl := Option.some.inj hstep
    exact .logs (.prepareBegin w)
  | inPrepare =>
    cases answer with
    | yes =>
      obtain rfl := Option.some.inj hstep
      exact .logs (.prepared w rfl)
    | no =>
      obtain rfl := Option.some.inj hstep
      exact .logs (.prepareFailed w rfl)
    | thread id => cases hstep
  | create =>
    cases answer with
    | yes => cases hstep
    | no =>
      obtain rfl := Option.some.inj hstep
      exact .logs (.createFailed w rfl)
    | thread id =>
      simp only [prepareStep, Option.ite_none_right_eq_some, Bool.and_eq_true] at hstep
      obtain ⟨⟨hid, htask⟩, hs⟩ := hstep
      obtain rfl := Option.some.inj hs
      exact .create w id rfl (isNone_iff.mp hid) (task_isNone_iff.mp htask)
  | reset prepared =>
    obtain rfl := Option.some.inj hstep
    cases prepared with
    | true => exact .resets (.failed w)
    | false => exact .resets (.refused w)

theorem handshakeStep_does (createdId : Option Th) :
    CallDoes s th answer (.start w (.handshake createdId)) (handshakeStep s th w createdId) := by
  have hstored : handshakeStep s th w createdId =
      handshakeStep (s.stored createdId) th w none := by
    cases createdId <;> rfl
  rw [hstored]
  simp only [handshakeStep]
  split
  · rename_i hready
    split
    · rename_i hstop
      exact .handshakeStop w createdId hready hstop
    · rename_i hstop
      exact .handshakeRun w createdId hready (Bool.eq_false_iff.mpr hstop)
  · rename_i hready
    exact .handshakeBlock w createdId (Bool.eq_false_iff.mpr hready)

theorem startStep_does {pt : StartPoint Th}
    (hstep : startStep s th w answer pt = some s') :
    CallDoes s th answer (.start w pt) s' := by
  cases pt with
  | claim =>
    simp only [startStep] at hstep
    split at hstep
    · rename_i hidle
      obtain rfl := Option.some.inj hstep
      exact .claim w hidle
    · rename_i hclaimed
      obtain rfl := Option.some.inj hstep
      exact .goes (.claim w hclaimed)
  | prepare pt => exact prepareStep_does hstep
  | handshake createdId =>
    obtain rfl := Option.some.inj hstep
    exact handshakeStep_does createdId
  | cleanup inside =>
    cases inside with
    | false =>
      obtain rfl := Option.some.inj hstep
      exact .logs (.failedBegin w)
    | true =>
      obtain rfl := Option.some.inj hstep
      exact .logs (.failedEnd w)

theorem requestStopStep_does (k : Requester) :
    CallDoes s th answer (.requestStop k) (requestStopStep s th k) := by
  unfold requestStopStep
  split
  · rename_i hidle
    exact .goes (.request k (Or.inl hidle))
  · rename_i hexited
    exact .goes (.request k (Or.inr hexited))
  · rename_i hrunning
    exact .stop k hrunning
  · rename_i hstarting
    exact .request k (Or.inl hstarting)
  · rename_i hstopping
    exact .request k (Or.inr hstopping)

theorem onStopRequestedStep_does (k : Notifier) (pt : CallbackPoint) :
    CallDoes s th answer (.onStopRequested k w pt) (onStopRequestedStep s th k w pt) := by
  cases pt with
  | enter => exact .logs (.stopBegin k w)
  | inside => exact .logs (.stopEnd k w)
  | leave =>
    have hcount : (if s.mCallbacksInProgress > 0 then s.mCallbacksInProgress - 1
        else s.mCallbacksInProgress) = s.mCallbacksInProgress - 1 := by
      split <;> omega
    simp only [onStopRequestedStep, hcount]
    exact .delivered k w

/-- joinLocked by the point: the wait for the callbacks, pthread_join, and the reset. -/
theorem joinLockedStep_does {op : Operation W} {pt : JoinPoint W Th}
    (hstep : joinLockedStep s th op answer pt = some s') :
    CallDoes s th answer (.joinLocked op pt) s' := by
  cases pt with
  | read =>
    simp only [joinLockedStep] at hstep
    split at hstep
    · rename_i hidle
      obtain rfl := Option.some.inj hstep
      exact .goes (.readNone op (Or.inl hidle))
    · rename_i hstarting
      obtain rfl := Option.some.inj hstep
      exact .goes (.readNone op (Or.inr hstarting))
    · rename_i hidle hstarting
      obtain rfl := Option.some.inj hstep
      exact .goes (.read op hidle hstarting)
  | pthreadJoin threadId =>
    simp only [joinLockedStep] at hstep
    split at hstep
    · split at hstep
      · rename_i hexited
        obtain rfl := Option.some.inj hstep
        exact .join op _ rfl hexited
      · cases hstep
    · obtain rfl := Option.some.inj hstep
      exact .goes (.joinFails op threadId rfl)
    · cases hstep
  | await =>
    simp only [joinLockedStep] at hstep
    split at hstep
    · rename_i hcount
      split at hstep
      · rename_i w hw
        obtain rfl := Option.some.inj hstep
        exact .take op w hcount hw
      · rename_i hw
        obtain rfl := Option.some.inj hstep
        exact .goes (.noWorker op hcount hw)
    · rename_i hcount
      obtain rfl := Option.some.inj hstep
      exact .joinBlock op hcount
  | cleanup w inside =>
    cases inside with
    | false =>
      obtain rfl := Option.some.inj hstep
      exact .logs (.cleanupBegin op w)
    | true =>
      obtain rfl := Option.some.inj hstep
      exact .logs (.cleanupEnd op w)
  | reset =>
    obtain rfl := Option.some.inj hstep
    exact .resets (.join op)

theorem msleepStep_does (pt : SleepPoint) :
    CallDoes s th answer (.msleep pt) (msleepStep s th pt) := by
  have hwait (hpred : ¬ (s.mState ≠ .running ∨ s.mWakeupRequested = true)) :
      CallDoes s th answer (.msleep pt)
        ({ s with mSleepCv := Function.update s.mSleepCv th true }.goto th (.msleep .wait)) := by
    rw [not_or, not_not, Bool.not_eq_true] at hpred
    exact .sleepBlock pt hpred.1 hpred.2
  cases pt with
  | enter =>
    simp only [msleepStep]
    split
    · split
      · rename_i hstopping
        exact .goes (.msleep fun _ => hstopping)
      · split
        · rename_i hpred
          exact .sleepEnd _ (Or.inr hpred)
        · rename_i hpred
          exact hwait hpred
    · rename_i hother
      exact .goes (.msleep fun hcurrent => absurd hcurrent hother)
  | wait =>
    simp only [msleepStep]
    split
    · rename_i hpred
      exact .sleepEnd _ (Or.inr hpred)
    · rename_i hpred
      exact hwait hpred
  | expired => exact .sleepEnd _ (Or.inl rfl)

/-- The case analysis of the steps in a call, done once. -/
theorem callStep_does {c : Call W Th} (hstep : callStep s th answer c = some s') :
    CallDoes s th answer c s' := by
  cases c with
  | none => cases hstep
  | isCurrentThread op =>
    obtain rfl := Option.some.inj hstep
    exact .goes (.isCurrentThread op)
  | lockLifecycle op =>
    simp only [callStep, Option.ite_none_right_eq_some, Option.isNone_iff_eq_none] at hstep
    obtain ⟨hfree, hs⟩ := hstep
    obtain rfl := Option.some.inj hs
    cases op <;> exact .acquire _ hfree
  | load op =>
    obtain rfl := Option.some.inj hstep
    exact .goes (.load op)
  | start w pt => exact startStep_does hstep
  | requestStop k =>
    obtain rfl := Option.some.inj hstep
    exact requestStopStep_does k
  | onStopRequested k w pt =>
    obtain rfl := Option.some.inj hstep
    exact onStopRequestedStep_does k pt
  | joinLocked op pt => exact joinLockedStep_does hstep
  | unlock =>
    obtain rfl := Option.some.inj hstep
    exact .release
  | msleep pt =>
    obtain rfl := Option.some.inj hstep
    exact msleepStep_does pt

/-- The case analysis of the steps in taskEntry, done once. -/
theorem taskStep_does {t : Task W} (hstep : taskStep s th t = some s') :
    TaskDoes s th t s' := by
  cases t with
  | none | exited => cases hstep
  | entry =>
    obtain rfl := Option.some.inj hstep
    exact .entry
  | await =>
    obtain rfl := Option.some.inj hstep
    exact .await
  | released worker =>
    cases worker with
    | none =>
      obtain rfl := Option.some.inj hstep
      exact .skip
    | some w =>
      obtain rfl := Option.some.inj hstep
      exact .run (.runBegin w)
  | run w =>
    obtain rfl := Option.some.inj hstep
    exact .run (.runEnd w)
  | exit =>
    obtain rfl := Option.some.inj hstep
    exact .exit

/-- A thread that goes on does so in its call, if it is in one. -/
theorem body_does (hstep : body s th answer = some s') : Does s th answer s' := by
  unfold body at hstep
  split at hstep
  · rename_i hnone
    exact .task (isNone_iff.mp hnone) rfl (taskStep_does hstep)
  · exact .call rfl (callStep_does hstep)

/-- The case analysis of the object's steps; every invariant takes it up from here. -/
theorem step_moves {a : Action W Th} (hstep : step s a = some s') : Moves s a s' := by
  cases a with
  | call th e =>
    simp only [step, Option.ite_none_right_eq_some, Bool.and_eq_true] at hstep
    obtain ⟨⟨hcall, hmay⟩, hs⟩ := hstep
    obtain rfl := Option.some.inj hs
    exact .call (isNone_iff.mp hcall) hmay
  | lock th =>
    simp only [step, Option.ite_none_right_eq_some, Bool.and_eq_true, Bool.not_eq_eq_eq_not,
      Bool.not_true, Option.isNone_iff_eq_none] at hstep
    obtain ⟨⟨⟨hin, hawake⟩, hfree⟩, hs⟩ := hstep
    obtain rfl := Option.some.inj hs
    exact .lock hin hawake hfree
  | resume th answer =>
    simp only [step] at hstep
    split at hstep
    · rename_i hin
      simp only [Option.ite_none_right_eq_some] at hstep
      exact .inside hin hstep.1 (body_does hstep.2)
    · rename_i hout
      exact .outside (by simpa using hout) (body_does hstep)
  | wakeup th =>
    obtain rfl := Option.some.inj hstep
    exact .wakeup
  | expire th =>
    simp only [step, Option.ite_none_right_eq_some] at hstep
    obtain rfl := Option.some.inj hstep.2
    exact .expire hstep.1

end CWrapper.WorkerThread
