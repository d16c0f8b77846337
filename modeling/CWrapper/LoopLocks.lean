import CWrapper.TimerRefinement

/-!
Who has a lock of MainLoop or of a timer: the thread that has it stands between lock and unlock. A
thread that waits for one of the locks therefore waits for a thread whose point tells what it does.
-/
namespace CWrapper.MainLoop

open Timer (Object Call Control)
open TimerLife Transition

variable {T Th F : Type} [DecidableEq T]

/-- A call that is not the destructor has mControlLock. -/
@[grind =] def locksControl : Control → Bool
  | .load c | .exchange c | .requestQueued c | .remove c | .removeWake c | .broadcast c
  | .requestRunning c | .lockWait c | .test c | .block c | .blocked c | .relock c => c ≠ .destroy
  | .returnDestroy => false
  | _ => true

@[grind =] def ThreadPoint.locksControl (t : T) : ThreadPoint T F → Bool
  | .timer u c => u = t && MainLoop.locksControl c
  | _ => false

@[grind =] def ThreadPoint.locksWait (t : T) : ThreadPoint T F → Bool
  | .timer u (.test _) | .timer u (.block _) => u = t
  | _ => false

@[grind =] def ThreadPoint.locksTimers : ThreadPoint T F → Bool
  | .timer _ (.addScan _) => true
  | _ => false

@[grind =] def ThreadPoint.locksFunctions : ThreadPoint T F → Bool
  | .post _ => true
  | _ => false

structure Held (s : State T Th F) : Prop where
  control : ∀ t th, (s.locks t).mControlLock = some th → (s.thread th).locksControl t = true
  wait : ∀ t th, (s.locks t).mWaitLock = some th → (s.thread th).locksWait t = true
  loop : s.mTimerLock = some .loop → s.loop.inSection
  timers : ∀ th, s.mTimerLock = some (.thread th) → (s.thread th).locksTimers = true
  functions : ∀ th, s.mFunctionLock = some th → (s.thread th).locksFunctions = true

theorem locksControl_afterStop (k : Call) :
    locksControl (Timer.afterStop k) = decide (k ≠ .destroy) := by
  cases k with
  | start msec rep =>
    simp only [Timer.afterStop]
    split <;> rfl
  | stop | destroy => rfl

theorem locksControl_controlStep {o o' : Object} {now : ℕ} {again : Bool} {c c' : Control}
    (h : Timer.controlStep o now again c = some (o', c')) : locksControl c' = locksControl c := by
  cases c with
  | load k =>
    obtain ⟨-, rfl⟩ := Prod.mk.inj (Option.some.inj h)
    split
    · exact locksControl_afterStop k
    · rfl
    · rfl
    · rfl
  | exchange k =>
    simp only [Timer.controlStep] at h
    split at h <;> cases h <;> rfl
  | requestRunning k => cases k <;> cases h <;> rfl
  | requestQueued | configure | clearRequest | queue => cases h; rfl
  | _ => cases h

/-- The steps of a call on the object alone are outside the sections. -/
theorem locks_controlStep {o o' : Object} {now : ℕ} {again : Bool} {c c' : Control}
    (h : Timer.controlStep o now again c = some (o', c')) (t : T) :
    (∀ u, (ThreadPoint.timer t c : ThreadPoint T F).locksWait u = false) ∧
      (ThreadPoint.timer t c : ThreadPoint T F).locksTimers = false := by
  cases c <;> first | exact ⟨fun _ => rfl, rfl⟩ | cases h

theorem locks_betweenCalls {p : ThreadPoint T F} (h : p.betweenCalls) :
    (∀ t, p.locksControl t = false) ∧ (∀ t, p.locksWait t = false) ∧ p.locksTimers = false ∧
      p.locksFunctions = false := by
  cases p <;> first | exact ⟨fun _ => rfl, fun _ => rfl, rfl, rfl⟩ | exact h.elim

theorem locks_wakeAll (t : T) (thread : Th → ThreadPoint T F) (th : Th) :
    (∀ u, (wakeAll t thread th).locksControl u = (thread th).locksControl u) ∧
      (∀ u, (wakeAll t thread th).locksWait u = (thread th).locksWait u) ∧
      (wakeAll t thread th).locksTimers = (thread th).locksTimers ∧
      (wakeAll t thread th).locksFunctions = (thread th).locksFunctions := by
  unfold wakeAll
  split
  · rename_i v k hth
    rw [hth]
    split <;> exact ⟨fun _ => rfl, fun _ => rfl, rfl, rfl⟩
  · exact ⟨fun _ => rfl, fun _ => rfl, rfl, rfl⟩

variable {s s' : State T Th F}

theorem Held.outside (h : Held s) (hout : ¬ s.loop.inSection) : s.mTimerLock ≠ some .loop :=
  fun hlock => hout (h.loop hlock)

/-- The loop thread moves, and takes or releases no lock of another thread. -/
theorem Held.loopMoves (h : Held s) (hlocks : s'.locks = s.locks)
    (hfunctions : s'.mFunctionLock = s.mFunctionLock) (hthread : s'.thread = s.thread)
    (htimers : s'.mTimerLock = s.mTimerLock ∨ s'.mTimerLock = none ∨ s'.mTimerLock = some .loop)
    (hloop : s'.mTimerLock = some .loop → s'.loop.inSection) : Held s' := by
  refine ⟨?_, ?_, hloop, fun th hth => ?_, ?_⟩
  · rw [hlocks, hthread]
    exact h.control
  · rw [hlocks, hthread]
    exact h.wait
  · rw [hthread]
    obtain hsame | hnone | hself := htimers
    · exact h.timers th (hsame ▸ hth)
    · rw [hnone] at hth
      cases hth
    · rw [hself] at hth
      cases hth
  · rw [hfunctions, hthread]
    exact h.functions

theorem Held.wakes (h : Held s) (t : T) (hlocks : s'.locks = s.locks)
    (hfunctions : s'.mFunctionLock = s.mFunctionLock) (htimers : s'.mTimerLock = s.mTimerLock)
    (hthread : s'.thread = wakeAll t s.thread)
    (hloop : s'.mTimerLock = some .loop → s'.loop.inSection) : Held s' := by
  have hwake := locks_wakeAll t s.thread
  refine ⟨fun u th hth => ?_, fun u th hth => ?_, hloop, fun th hth => ?_, fun th hth => ?_⟩
  · rw [hthread, (hwake th).1]
    exact h.control u th (hlocks ▸ hth)
  · rw [hthread, (hwake th).2.1]
    exact h.wait u th (hlocks ▸ hth)
  · rw [hthread, (hwake th).2.2.1]
    exact h.timers th (htimers ▸ hth)
  · rw [hthread, (hwake th).2.2.2]
    exact h.functions th (hfunctions ▸ hth)

@[grind =] theorem mControlLock_update (locks : T → Locks Th) (t u : T) (l : Locks Th) :
    (Function.update locks t l u).mControlLock =
      if u = t then l.mControlLock else (locks u).mControlLock := by
  by_cases h : u = t <;> simp [h]

variable [DecidableEq Th] {capacity : ℕ+} {a : Action T Th F}

omit [DecidableEq T] in
@[grind =] theorem goto_eq (s : State T Th F) (th u : Th) (t : T) (c : Control) :
    s.goto th t c u = if u = th then .timer t c else s.thread u := Function.update_apply ..

/-- The holder of a lock stands in a section of it, after a step as before it. -/
theorem Held.step (hm : Moves capacity s a s') (h : Held s) : Held s' := by
  have ⟨hc, hw, hl, ht, hf⟩ := h
  cases hm with
  | stay | tick | setHandler | setInterval | setRepeat | wakeup => exact ⟨hc, hw, hl, ht, hf⟩
  | lockControl x t k hout ha hlock hlife =>
    have hk : k ≠ .destroy := by
      obtain ⟨-, rfl⟩ | ⟨_, _, rfl, -⟩ := ha <;> simp
    have hout := locks_betweenCalls hout
    constructor <;> grind [Function.update_apply]
  | restart x t hout | destroy x t hout =>
    have hout := locks_betweenCalls hout
    constructor <;> grind [Function.update_apply]
  | object x again t c c' o hth hstep =>
    have hcontrol := locksControl_controlStep hstep
    have hsections := locks_controlStep (F := F) hstep t
    constructor <;> grind [Function.update_apply]
  | broadcast x again t k hth =>
    have hcontrol := locksControl_afterStop k
    have hwake := locks_wakeAll t s.thread
    constructor <;> grind [Function.update_apply]
  | leave x again t c hth hret =>
    obtain rfl | rfl := hret
    · constructor <;> grind [Function.update_apply]
    · constructor <;> grind [Function.update_apply]
  | post | postWrite | terminate | terminateWrite | remove | removeWake | lockWait | testReleased
  | testBlock | block | spurious | addFound | addLock | addScan | addInsert | addWake
  | returnDestroy => constructor <;> grind [Function.update_apply]
  | broadcastPending keep t hloop =>
    have hout : ¬ s.loop.inSection := by simp [hloop, LoopPoint.inSection, locked]
    exact h.wakes t rfl rfl rfl rfl fun hlock => (h.outside hout hlock).elim
  | broadcastLast keep t e hloop he =>
    refine h.wakes t rfl rfl rfl rfl fun hlock => (h.outside ?_ hlock).elim
    obtain rfl | rfl | rfl := he <;> simp [hloop, LoopPoint.inSection, locked]
  | takeTimer | requeueLock =>
    refine h.loopMoves rfl rfl rfl (Or.inr (Or.inr rfl)) fun _ => ?_
    simp [LoopPoint.inSection, locked]
  | noneExpired | popFront | requeueInsert =>
    exact h.loopMoves rfl rfl rfl (Or.inr (Or.inl rfl)) fun hlock => by cases hlock
  | expired | requeueScan =>
    exact h.loopMoves rfl rfl rfl (Or.inl rfl) fun _ => by simp [LoopPoint.inSection, locked]
  | execute keep t e e' o hloop hstep =>
    refine h.loopMoves rfl rfl rfl (Or.inl rfl) fun hlock => ?_
    have hin := hl hlock
    rw [hloop] at hin
    exact (executeStep_locked hstep).mpr hin
  | readInterrupted answer terminated evs hloop | readEmpty answer terminated evs hloop
  | readByte answer terminated evs c rest hloop =>
    refine h.loopMoves rfl rfl rfl (Or.inl rfl) fun hlock => (h.outside ?_ hlock).elim
    obtain ⟨hloop, -⟩ | hloop := hloop <;> simp [hloop, LoopPoint.inSection]
  | enter hloop | noFunction _ _ hloop | takeFunction _ _ _ _ hloop | invoke _ _ hloop
  | nextTimeout _ hloop | epollReturn _ _ _ _ hloop | batchDone _ hloop | watcher _ _ hloop
  | command _ _ hloop | testTerminated _ _ _ hloop | requeueFound _ _ hloop
  | requeueWake _ _ hloop | requeueRemove _ _ hloop | requeueRemoveWake _ _ hloop =>
    have hout : ¬ s.loop.inSection := by simp [hloop, LoopPoint.inSection, locked]
    exact h.loopMoves rfl rfl rfl (Or.inl rfl) fun hlock => (h.outside hout hlock).elim

omit [DecidableEq Th] in
theorem Held.start (now : ℕ) : Held (State.start now : State T Th F) := by
  constructor <;> simp [State.start]

/-- No lock is left held by a thread outside its sections. -/
theorem held_invariant :
    (system T Th F capacity).Invariant Machine.anyStep (fun _ => True) Held where
  init s hs := by
    obtain ⟨now, -, rfl⟩ := hs
    exact Held.start now
  step _ _ _ _ _ hstep h := h.step (step_cases hstep)

end CWrapper.MainLoop
