import CWrapper.WorkerInversion

/-!
Who is blocked in mStateCv and mSleepCv. A thread that is blocked and not woken stands at a wait
whose predicate is false: every section that could make it true wakes all who wait.
-/
namespace CWrapper.WorkerThread

open Transition

variable {W Th : Type}

inductive AwaitsState (s : State W Th) (th : Th) : Prop
  | ready {w : W} : s.call th = .start w (.handshake none) → s.mThreadReady = false →
      AwaitsState s th
  | callbacks {op : Operation W} : s.call th = .joinLocked op .await →
      s.mCallbacksInProgress ≠ 0 → AwaitsState s th
  | released : s.call th = .none → s.task th = .await → s.mStartReleased = false →
      AwaitsState s th

structure Waits (s : State W Th) : Prop where
  lock : ∀ th, s.mStateLock = some th → s.inSection th = true ∧ s.asleep th = false
  state : ∀ th, s.mStateCv th = true → AwaitsState s th
  sleep : ∀ th, s.mSleepCv th = true →
    s.call th = .msleep .wait ∧ s.mState = .running ∧ s.mWakeupRequested = false

/-- The thread is awake, and in no section. -/
structure Acts (s : State W Th) (th : Th) : Prop where
  unlocked : s.mStateLock ≠ some th
  state : s.mStateCv th = false
  sleep : s.mSleepCv th = false

variable {s s' : State W Th} {th : Th} {c : Call W Th}

section Points

theorem inSection_of_call (h : s.call th = c) (hc : c.isNone = false) :
    s.inSection th = c.isSection := by
  rw [State.inSection, h, hc]
  rfl

theorem inSection_of_task (h : s.call th = .none) : s.inSection th = (s.task th).isSection := by
  rw [State.inSection, h]
  rfl

theorem AwaitsState.of_eq (h : AwaitsState s th) (hcall : s'.call th = s.call th)
    (htask : s'.task th = s.task th) (hready : s'.mThreadReady = s.mThreadReady)
    (hcount : s'.mCallbacksInProgress = s.mCallbacksInProgress)
    (hreleased : s'.mStartReleased = s.mStartReleased) : AwaitsState s' th := by
  cases h with
  | ready hpoint hpred => exact .ready (hcall.trans hpoint) (hready.trans hpred)
  | callbacks hpoint hpred => exact .callbacks (hcall.trans hpoint) (hcount ▸ hpred)
  | released hpoint hwait hpred =>
    exact .released (hcall.trans hpoint) (htask.trans hwait) (hreleased.trans hpred)

theorem AwaitsState.inSection (h : AwaitsState s th) : s.inSection th = true := by
  cases h with
  | ready hcall _ => rw [inSection_of_call hcall rfl]; rfl
  | callbacks hcall _ => rw [inSection_of_call hcall rfl]; rfl
  | released hcall htask _ => rw [inSection_of_task hcall, htask]; rfl

/-- Who is blocked goes on in a section. -/
theorem Waits.asleep_inSection (h : Waits s) (hth : s.asleep th = true) :
    s.inSection th = true := by
  rw [State.asleep, Bool.or_eq_true] at hth
  rcases hth with hth | hth
  · exact (h.state th hth).inSection
  · rw [inSection_of_call (h.sleep th hth).1 rfl]
    rfl

theorem Waits.acts (h : Waits s) (hsection : s.inSection th = false) : Acts s th := by
  have hawake : s.asleep th = false := by
    by_contra hasleep
    have hin := h.asleep_inSection (by simpa using hasleep)
    rw [hsection] at hin
    cases hin
  rw [State.asleep, Bool.or_eq_false_iff] at hawake
  refine ⟨fun hlock => ?_, hawake.1, hawake.2⟩
  have hin := (h.lock th hlock).1
  rw [hsection] at hin
  cases hin

/-- A section begins: the lock will be free at its end. -/
theorem Waits.unlock (h : Waits s) (hlock : s.mStateLock = some th) :
    Waits { s with mStateLock := none } ∧ Acts { s with mStateLock := none } th := by
  have hawake := (h.lock th hlock).2
  rw [State.asleep, Bool.or_eq_false_iff] at hawake
  refine ⟨⟨nofun, fun th' hth' => ?_, h.sleep⟩, nofun, hawake.1, hawake.2⟩
  exact (h.state th' hth').of_eq rfl rfl rfl rfl rfl

end Points

section Changes

/-- A thread that is awake goes to another point; what it waits for, it waits for there. -/
theorem Waits.move (h : Waits s) (hth : Acts s th) (call : Th → Call W Th) (task : Th → Task W)
    (hcall : ∀ th', th' ≠ th → call th' = s.call th')
    (htask : ∀ th', th' ≠ th → task th' = s.task th') :
    Waits { s with call := call, task := task } where
  lock th' hlock := by
    have hne : th' ≠ th := fun heq => hth.unlocked (heq ▸ hlock)
    have hin := h.lock th' hlock
    simp only [State.inSection, State.asleep, hcall th' hne, htask th' hne] at hin ⊢
    exact hin
  state th' hth' := by
    have hne : th' ≠ th := by
      rintro rfl
      rw [hth.state] at hth'
      cases hth'
    exact (h.state th' hth').of_eq (hcall th' hne) (htask th' hne) rfl rfl rfl
  sleep th' hth' := by
    have hne : th' ≠ th := by
      rintro rfl
      rw [hth.sleep] at hth'
      cases hth'
    have hsleep := h.sleep th' hth'
    exact ⟨(hcall th' hne).trans hsleep.1, hsleep.2⟩

theorem Waits.goto [DecidableEq Th] (h : Waits s) (hth : Acts s th) : Waits (s.goto th c) :=
  h.move hth _ s.task (fun _ hne => Function.update_of_ne hne ..) fun _ _ => rfl

theorem Waits.gotoTask [DecidableEq Th] {t : Task W} (h : Waits s) (hth : Acts s th) :
    Waits (s.gotoTask th t) :=
  h.move hth s.call _ (fun _ _ => rfl) fun _ hne => Function.update_of_ne hne ..

/-- The identity of a thread is given away, or comes free. -/
theorem Waits.taskOf [DecidableEq Th] {id : Th} {t : Task W} (h : Waits s)
    (hid : (s.task id).isSection = false) : Waits (s.gotoTask id t) where
  lock th hlock := by
    obtain ⟨hin, hawake⟩ := h.lock th hlock
    refine ⟨?_, hawake⟩
    by_cases heq : th = id
    · subst heq
      by_cases hnone : s.call th = .none
      · rw [inSection_of_task hnone, hid] at hin
        cases hin
      · have hcall : (s.call th).isNone = false := by simpa [← isNone_iff] using hnone
        rw [inSection_of_call rfl hcall] at hin
        rw [inSection_of_call (s := s.gotoTask th t) rfl hcall]
        exact hin
    · simp only [State.inSection, State.gotoTask, Function.update_of_ne heq] at hin ⊢
      exact hin
  state th hth := by
    cases h.state th hth with
    | ready hcall hpred => exact .ready hcall hpred
    | callbacks hcall hpred => exact .callbacks hcall hpred
    | released hcall htask hpred =>
      have hne : th ≠ id := by
        rintro rfl
        rw [htask] at hid
        cases hid
      exact .released hcall ((Function.update_of_ne hne ..).trans htask) hpred
  sleep := h.sleep

/-- No predicate depends on the worker, its identity, the log, mLifecycleLock or
mStopRequested. -/
theorem Waits.data (h : Waits s) (mWorker : Option W) (mId mLifecycleLock : Option Th)
    (mStopRequested : Bool) (log : List (Event W Th)) : Waits { s with
      mWorker := mWorker
      mId := mId
      mLifecycleLock := mLifecycleLock
      mStopRequested := mStopRequested
      log := log } where
  lock := h.lock
  state th hth := (h.state th hth).of_eq rfl rfl rfl rfl rfl
  sleep := h.sleep

theorem Waits.emit (h : Waits s) (e : Event W Th) : Waits (s.emit e) :=
  h.data s.mWorker s.mId s.mLifecycleLock s.mStopRequested (s.log ++ [e])

/-- When all who wait in mStateCv are woken, the flags they wait for may change. -/
theorem Waits.wakeState (h : Waits s) (mThreadReady mStartReleased : Bool) (count : ℕ) :
    Waits { s with
      mStateCv := fun _ => false
      mThreadReady := mThreadReady
      mStartReleased := mStartReleased
      mCallbacksInProgress := count } where
  lock th hlock := by
    have hin := h.lock th hlock
    rw [State.asleep, Bool.or_eq_false_iff] at hin
    exact ⟨hin.1, by rw [State.asleep, hin.2.2]; rfl⟩
  state _ hth := by cases hth
  sleep := h.sleep

/-- When the sleeper is woken, the state and mWakeupRequested may change. -/
theorem Waits.wakeSleep (h : Waits s) (mState : ThreadState) (mWakeupRequested : Bool) :
    Waits { s with
      mSleepCv := fun _ => false
      mState := mState
      mWakeupRequested := mWakeupRequested } where
  lock th hlock := by
    have hin := h.lock th hlock
    rw [State.asleep, Bool.or_eq_false_iff] at hin
    exact ⟨hin.1, by rw [State.asleep, hin.2.1]; rfl⟩
  state th hth := (h.state th hth).of_eq rfl rfl rfl rfl rfl
  sleep _ hth := by cases hth

/-- Outside a running session nobody is in mSleepCv. -/
theorem Waits.noSleeper (h : Waits s) (hstate : s.mState ≠ .running) :
    s.mSleepCv = fun _ => false := by
  funext th
  by_contra hth
  exact hstate (h.sleep th (by simpa using hth)).2.1

/-- While nobody sleeps in msleep, the state may change. -/
theorem Waits.setState (h : Waits s) (hstate : s.mState ≠ .running) (mState : ThreadState) :
    Waits { s with mState := mState } := by
  have hwoken := h.wakeSleep mState s.mWakeupRequested
  rwa [← h.noSleeper hstate] at hwoken

/-- Taking back mWakeupRequested does no harm to those who wait. -/
theorem Waits.clearWakeup (h : Waits s) : Waits { s with mWakeupRequested := false } where
  lock := h.lock
  state th hth := (h.state th hth).of_eq rfl rfl rfl rfl rfl
  sleep th hth := ⟨(h.sleep th hth).1, (h.sleep th hth).2.1, rfl⟩

variable [DecidableEq Th]

/-- The thread blocks in mStateCv at a wait whose predicate is false. -/
theorem Waits.block (h : Waits s) (hlock : s.mStateLock = none) (hwait : AwaitsState s th) :
    Waits (s.waitState th) where
  lock th' hth' := by
    rw [show (s.waitState th).mStateLock = none from hlock] at hth'
    cases hth'
  state th' hth' := by
    by_cases heq : th' = th
    · rw [heq]
      exact hwait.of_eq rfl rfl rfl rfl rfl
    · simp only [State.waitState, Function.update_of_ne heq] at hth'
      exact (h.state th' hth').of_eq rfl rfl rfl rfl rfl
  sleep := h.sleep

/-- The thread blocks in mSleepCv. -/
theorem Waits.blockSleep (h : Waits s) (hlock : s.mStateLock = none)
    (hcall : s.call th = .msleep .wait) (hstate : s.mState = .running)
    (hwakeup : s.mWakeupRequested = false) :
    Waits { s with mSleepCv := Function.update s.mSleepCv th true } where
  lock th' hth' := by
    rw [show _ = none from hlock] at hth'
    cases hth'
  state th' hth' := (h.state th' hth').of_eq rfl rfl rfl rfl rfl
  sleep th' hth' := by
    by_cases heq : th' = th
    · rw [heq]
      exact ⟨hcall, hstate, hwakeup⟩
    · simp only [Function.update_of_ne heq] at hth'
      exact h.sleep th' hth'

/-- The thread is woken without a reason. -/
theorem Waits.wakeup (h : Waits s) (th : Th) : Waits { s with
      mStateCv := Function.update s.mStateCv th false
      mSleepCv := Function.update s.mSleepCv th false } where
  lock th' hlock := by
    obtain ⟨hin, hawake⟩ := h.lock th' hlock
    rw [State.asleep, Bool.or_eq_false_iff] at hawake
    refine ⟨hin, ?_⟩
    by_cases heq : th' = th
    · simp [State.asleep, heq]
    · simp [State.asleep, Function.update_of_ne heq, hawake.1, hawake.2]
  state th' hth' := by
    by_cases heq : th' = th
    · simp [heq] at hth'
    · simp only [Function.update_of_ne heq] at hth'
      exact (h.state th' hth').of_eq rfl rfl rfl rfl rfl
  sleep th' hth' := by
    by_cases heq : th' = th
    · simp [heq] at hth'
    · simp only [Function.update_of_ne heq] at hth'
      exact h.sleep th' hth'

end Changes

end CWrapper.WorkerThread
