import CWrapper.Transition
import CWrapper.TimerThreadsEngine

/-!
The runs of a TimerThread and its threads. mThread moves as it does when it is used by itself.
-/
namespace CWrapper.TimerThreads

open Transition WorkerThread

variable {H Th : Type} [DecidableEq Th] {s s' : State H Th} {th u : Th} {a : Action H Th}

theorem follow_thread (s s' : State H Th) (a : WorkerThread.Action Unit Th) :
    (s.follow s' a).mThread = s'.mThread := by
  cases a with
  | resume th answer =>
    simp only [State.follow]
    split <;> rfl
  | call | lock | wakeup | expire => rfl

theorem follow_call (s s' : State H Th) (a : WorkerThread.Action Unit Th) :
    (s.follow s' a).call = s'.call := by
  cases a with
  | resume th answer =>
    simp only [State.follow]
    split <;> rfl
  | call | lock | wakeup | expire => rfl

theorem callStep_call {c : Call H} (hsteps : CallSteps s th c s') :
    ∃ d, s'.call = Function.update s.call th d := by
  cases hsteps with
  | assign op =>
    refine ⟨op.unlocked, ?_⟩
    rw [← (assign_fields s th op).2.2.1]
    rfl
  | callStop | stopped | lock | callStart | started => exact ⟨_, rfl⟩

theorem runStep_call {r : RunPoint H} (hsteps : RunSteps s th r s') : s'.call = s.call := by
  cases hsteps <;> rfl

/-- mThread is left alone, takes a step of its own, or is called. -/
def EngineMoves (s : State H Th) (a : Action H Th) (s' : State H Th) : Prop :=
  s'.mThread = s.mThread ∨
    ∃ b, (a = .engine b ∧ s.admits b = true ∨ ∃ th entry, b = .call th entry) ∧
      WorkerThread.step s.mThread b = some s'.mThread

/-- Seen from mThread, a step is a step of mThread or none. -/
theorem step_engine (hstep : step s a = some s') : EngineMoves s a s' := by
  cases step_moves hstep with
  | tick | enter => exact Or.inl rfl
  | resume hsteps =>
    generalize s.call _ = c at hsteps
    cases hsteps with
    | callStop _ he | callStart he => exact Or.inr ⟨_, Or.inr ⟨_, _, rfl⟩, he⟩
    | stopped | lock | started => exact Or.inl rfl
    | assign op => exact Or.inl (assign_fields s _ op).1
  | run answer hsteps =>
    generalize s.run _ = r at hsteps
    cases hsteps with
    | goes | lock | unlock | awake | returned => exact Or.inl rfl
    | callMsleep timeoutMs he => exact Or.inr ⟨_, Or.inr ⟨_, _, rfl⟩, he⟩
  | @engine b e hadmits he =>
    exact Or.inr ⟨b, Or.inl ⟨rfl, hadmits⟩, by rw [follow_thread]; exact he⟩

/-- The steps of mThread are those of a WorkerThread. -/
theorem engine_part : Machine.Part (machine H Th) (WorkerThread.machine Unit Th) Machine.anyStep
    Machine.anyStep (fun s => s.mThread) where
  init s hinit := by
    obtain ⟨now, -, rfl⟩ := hinit
    rfl
  step s a s' _ _ hstep := by
    obtain hsame | ⟨b, -, hb⟩ := step_engine hstep
    · exact Or.inl hsame
    · exact Or.inr ⟨b, trivial, hb⟩

/-- One step keeps the points in TimerThread and in mThread together, and mLock with those who hold
it. -/
theorem Consistent.step (h : Consistent s) (hstep : TimerThreads.step s a = some s') :
    Consistent s' := by
  cases step_moves hstep with
  | tick d => exact ⟨h.held, h.runs, h.outside, h.engine, h.sleeps⟩
  | enter op hmay => exact h.enter hmay
  | resume hsteps => exact h.callStep hsteps
  | run answer hsteps => exact h.runStep hsteps
  | @engine b e hadmits he =>
    have hmoves := WorkerThread.step_moves he
    cases b with
    | call => cases hadmits
    | lock th | wakeup th =>
      cases hmoves
      exact ⟨h.held, h.runs, h.outside, h.engine, h.sleeps⟩
    | resume th answer =>
      by_cases hnone : s.mThread.call th = .none
      · exact h.taskStep hnone hadmits he
      · exact h.engineCall hnone hadmits he
    | expire th =>
      have hcalls : e.call = Function.update s.mThread.call th (.msleep .expired) := by
        cases hmoves
        rfl
      have htask : e.task = s.mThread.task := by
        cases hmoves
        rfl
      obtain ⟨expireTime, hr⟩ : ∃ expireTime, s.run th = .wait expireTime := by
        cases hr : s.run th <;> simp [State.admits, hr] at hadmits ⊢
      have hcall : s.call th = .none := h.call_none (by rw [hr]; simp) (by rw [hr]; rfl)
      have hentry : (s.call th).engine (s.run th) = some .msleep := by
        rw [hcall, hr]
        rfl
      have hstay := h.stay hentry (Or.inr (by rw [hcalls, Function.update_self]; rfl))
        (fun u hu => by rw [hcalls, Function.update_of_ne hu]) (fun _ => by rw [htask])
        (fun _ _ hu => by rw [htask, hu]) (Or.inl rfl) (by rw [hr]; simp)
      simpa only [State.follow, State.gotoRun, Function.update_eq_self] using hstay

/-- Where a thread stands in TimerThread determines where it stands in mThread, and how often it
holds mLock. -/
theorem consistent_reachable (hs : (machine H Th).Reachable Machine.anyStep s) : Consistent s := by
  have hinv : (machine H Th).Invariant Machine.anyStep (fun _ => True) Consistent := by
    refine ⟨?_, fun s a s' _ _ hstep h => h.step hstep⟩
    intro s hinit
    obtain ⟨now, -, rfl⟩ := hinit
    exact ⟨fun _ => rfl, fun _ => by simp [start, WorkerThread.start], fun _ hne => absurd rfl hne,
      fun _ => Or.inl rfl, fun _ _ hr => by cases hr⟩
  exact hinv.always hs

section Example

def inEngineLock (th : Bool) : List (Action Unit Bool) :=
  [.engine (.lock th), .engine (.resume th .yes)]

def inEngine (n : ℕ) (th : Bool) : List (Action Unit Bool) :=
  .replicate n (.engine (.resume th .yes))

def inFunction (n : ℕ) (th : Bool) : List (Action Unit Bool) := .replicate n (.resume th)

def inRun (n : ℕ) : List (Action Unit Bool) := .replicate n (.run true true)

/-- The thread `false` has started the timer, and `true` is in the wait of msleep. -/
def waiting : State Unit Bool :=
  (machine Unit Bool).after Machine.anyStep (start 0)
    ([.enter false (.setHandler (some ()))] ++ inFunction 2 false ++
      [.enter false (.start 10#32 true)] ++ inFunction 1 false ++ inEngineLock false ++
      inEngine 1 false ++ inEngineLock false ++ inEngine 2 false ++ inFunction 4 false ++
      inEngine 2 false ++ inEngineLock false ++ inEngine 3 false ++
      [.engine (.resume false (.thread true))] ++ inEngineLock true ++ inEngineLock false ++
      inEngine 1 false ++ inFunction 1 false ++ inEngineLock true ++ inEngine 1 true ++ inRun 4 ++
      inEngineLock true)

def expires : List (Action Unit Bool) :=
  [.tick 10, .engine (.expire true)] ++ inEngineLock true ++ inRun 3

def expired : State Unit Bool :=
  (machine Unit Bool).after Machine.anyStep waiting (expires ++ inRun 1)

theorem waiting_reachable : (machine Unit Bool).Reachable Machine.anyStep waiting :=
  Machine.reachable_after ⟨0, by decide, rfl⟩ (by decide +kernel)

theorem expired_reachable : (machine Unit Bool).Reachable Machine.anyStep expired :=
  waiting_reachable.path (Machine.path_after (by decide +kernel))

end Example

end CWrapper.TimerThreads
