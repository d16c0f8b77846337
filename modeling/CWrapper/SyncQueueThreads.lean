import CWrapper.SyncQueueHistory

/-!
What a step of the queue does to a thread: the thread takes the step itself, makes a call, leaves
its wait, or is left alone.
-/
namespace CWrapper.SyncQueue

open Transition

variable {T Th : Type} {Capacity : ℕ+}

/-- Two runs that differ in what a call returned last have different histories. -/
theorem returned_ne {returned : List (Th × Returned T)} {th : Th} {r r' : Returned T}
    (h : r ≠ r') : returned ++ [(th, r)] ≠ returned ++ [(th, r')] := by
  intro heq
  have hlast := List.append_cancel_left heq
  simp only [List.cons.injEq, Prod.mk.injEq, true_and, and_true] at hlast
  exact h hlast

def WaitPoint.untimed : WaitPoint → Bool
  | .blocked (some _) | .woken true => false
  | _ => true

theorem untimed_wake {point : WaitPoint} (h : point.untimed = true) :
    (point.wake false).untimed = true := by
  cases point with
  | blocked => rfl
  | enter | woken => exact h

def MayWake (p p' : ThreadPoint T) : Prop := p' = p ∨ p' = p.wake false

/-- A thread stands where it stood, or its wait is over. -/
def Stays (p p' : ThreadPoint T) : Prop := p' = p ∨ ∃ timedOut, p' = p.wake timedOut

theorem MayWake.stays {p p' : ThreadPoint T} (h : MayWake p p') : Stays p p' :=
  h.imp_right fun hwake => ⟨false, hwake⟩

variable [DecidableEq Th] {s s' : State T Th Capacity}
  {th u : Th} {choice : ℕ} {p : ThreadPoint T}

theorem MayWake.update (thread : Th → ThreadPoint T) :
    MayWake (thread u) (Function.update thread th ((thread th).wake false) u) := by
  by_cases heq : u = th
  · rw [heq, Function.update_self]
    exact Or.inr rfl
  · rw [Function.update_of_ne heq]
    exact Or.inl rfl

theorem signalEmpty_wakes : MayWake (s.thread u) ((s.signalEmpty choice).thread u) := by
  unfold State.signalEmpty
  split
  · exact Or.inl rfl
  · exact MayWake.update s.thread

theorem signalFull_wakes : MayWake (s.thread u) ((s.signalFull choice).thread u) := by
  unfold State.signalFull
  split
  · exact Or.inl rfl
  · exact MayWake.update s.thread

theorem wakeAll_wakes (waiters : List Th) (thread : Th → ThreadPoint T) :
    MayWake (thread u) (wakeAll waiters thread u) := by
  unfold wakeAll
  split
  · exact Or.inr rfl
  · exact Or.inl rfl

theorem Stays.goto {p₀ : ThreadPoint T} (h : Stays p₀ (s.thread u)) (hu : u ≠ th) :
    Stays p₀ ((s.goto th p).thread u) := by
  show Stays p₀ (Function.update s.thread th p u)
  rwa [Function.update_of_ne hu]

theorem Stays.return {p₀ : ThreadPoint T} (h : Stays p₀ (s.thread u)) (hu : u ≠ th)
    (r : Returned T) : Stays p₀ ((s.return th r).thread u) := h.goto hu

theorem update_wake_stays (thread : Th → ThreadPoint T) (timedOut : Bool) :
    Stays (thread u) (Function.update thread th ((thread th).wake timedOut) u) := by
  by_cases h : u = th
  · subst h
    exact Or.inr ⟨timedOut, Function.update_self ..⟩
  · exact Or.inl (Function.update_of_ne h ..)

variable [Inhabited T] {moved : T → T} {a : Action T Th}

/-- A step moves its own thread, and of the others only those that it wakes. -/
theorem Moves.follows (hm : Moves moved s a s') (u : Th) :
    (∃ choice, a = .resume u choice) ∨ Stays (s.thread u) (s'.thread u) ∨
      s.thread u = .idle ∧ (s'.thread u).isEntry = true := by
  have hself {th : Th} {choice : ℕ} (h : u ≠ th → Stays (s.thread u) (s'.thread u)) :
      (∃ c, Action.resume th choice = (.resume u c : Action T Th)) ∨
        Stays (s.thread u) (s'.thread u) ∨
          s.thread u = .idle ∧ (s'.thread u).isEntry = true := by
    by_cases hu : u = th
    · exact Or.inl ⟨choice, by rw [hu]⟩
    · exact Or.inr (Or.inl (h hu))
  have hkept : Stays (s.thread u) (s.thread u) := Or.inl rfl
  cases hm with
  | tick => exact Or.inr (Or.inl hkept)
  | @call _ th p hth hentry =>
    by_cases hu : u = th
    · subst hu
      refine Or.inr (Or.inr ⟨hth, ?_⟩)
      simpa [State.goto] using hentry
    · exact Or.inr (Or.inl (hkept.goto hu))
  | putFail | getFail | putForceFail => exact hself fun hu => hkept.return hu _
  | putForceDispose => exact hself fun hu => Or.inl (Function.update_of_ne hu ..)
  | putBlock | getBlock | flushEnd | storeEOS | flushItem | flushDispose =>
    exact hself fun hu => Or.inl (Function.update_of_ne hu ..)
  | put | putForce => exact hself fun hu => signalEmpty_wakes.stays.return hu _
  | get => exact hself fun hu => signalFull_wakes.stays.return hu _
  | evict => exact hself fun hu => signalEmpty_wakes.stays.goto hu
  | flushBroadcast | broadcastFull | broadcastEmpty =>
    exact hself fun hu => (wakeAll_wakes ..).stays.goto hu
  | putLeave | getLeave => exact Or.inr (Or.inl (update_wake_stays ..))

/-- A thread that is in no wait and does not take the step itself is left alone. -/
theorem Moves.kept (hm : Moves moved s a s') {u : Th} (hidle : s.thread u ≠ .idle)
    (hwake : ∀ timedOut, (s.thread u).wake timedOut = s.thread u)
    (hother : ∀ choice, a ≠ .resume u choice) : s'.thread u = s.thread u := by
  rcases hm.follows u with ⟨choice, rfl⟩ | (h | ⟨timedOut, h⟩) | ⟨hth, -⟩
  · exact absurd rfl (hother choice)
  · exact h
  · rw [h, hwake]
  · exact absurd hth hidle

end CWrapper.SyncQueue
