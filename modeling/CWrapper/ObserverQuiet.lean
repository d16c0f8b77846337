import CWrapper.ObserverAdd

/-!
A list on which no call is in flight. It is a set of at most as many observers as it has entries:
add and remove change what contains answers for their own observer only.
-/
namespace CWrapper.ObserverList.RawObserverList

open SlotLife Transition

variable {O : Type} [DecidableEq O] {N w : ℕ} {l : RawObserverList O N w} {o u : O} {i : Fin N}

/-- One thread has added and removed, and no call is in flight. -/
def Quiet (l : RawObserverList O N w) : Prop :=
  ∃ s : State O Unit N w, (system O Unit N w).Reachable Machine.anyStep s ∧ s.calls = [] ∧
    s.stack () = [] ∧ s.list = l

theorem quiet_empty : (empty : RawObserverList O N w).Quiet :=
  ⟨State.start, ⟨State.start, [], rfl, .nil _⟩, rfl, rfl, rfl⟩

theorem addStep_list (s : State O Unit N w) (o : Option O) :
    (addStep s o).list = (s.list.add o).2 := by
  cases o with
  | none => rfl
  | some o =>
    rw [add_eq]
    simp only [addStep, add_eq]
    cases s.list.freeIndexFor o <;> simp

theorem addStep_calls (s : State O Unit N w) (o : Option O) :
    (addStep s o).calls = s.calls ∧ (addStep s o).stack = s.stack := by
  cases o with
  | none => exact ⟨rfl, rfl⟩
  | some o =>
    simp only [addStep]
    cases s.list.freeIndexFor o <;> exact ⟨rfl, rfl⟩

theorem Quiet.add (h : l.Quiet) (o : Option O) : (l.add o).2.Quiet := by
  obtain ⟨s, hs, hcalls, hstack, rfl⟩ := h
  have hstep : (system O Unit N w).step s (.add () o) = some (addStep s o) :=
    if_pos (by simp [State.mayCall, hstack])
  obtain ⟨hcalls', hstack'⟩ := addStep_calls s o
  exact ⟨_, hs.step trivial hstep, hcalls'.trans hcalls, (congrFun hstack' ()).trans hstack,
    addStep_list s o⟩

theorem Quiet.remove (h : l.Quiet) (o : Option O) : (l.remove o).2.Quiet := by
  obtain ⟨s, hs, hcalls, hstack, rfl⟩ := h
  have hstep : (system O Unit N w).step s (.remove () o) = some (removeStep s o) :=
    if_pos (by simp [State.mayCall, hstack])
  exact ⟨_, hs.step trivial hstep, hcalls, hstack, rfl⟩

/-- Each slot is free, or holds an observer that no call has borrowed. -/
theorem Quiet.shows (h : l.Quiet) (i : Fin N) :
    l.Shows i .free ∨ ∃ o r, l.Shows i (.listed o r 0) := by
  obtain ⟨s, hs, hcalls, -, rfl⟩ := h
  obtain ⟨σ, hσ⟩ := (consistent_reachable hs).slots i
  have hacting : σ.calls = 0 := by
    rw [← hσ.acting, hcalls]
    rfl
  have hwaiting : σ.waiters = 0 := by
    rw [← hσ.waiting, hcalls]
    rfl
  cases σ with
  | free => exact Or.inl hσ.toShows
  | listed o r n =>
    obtain rfl : n = 0 := hacting
    exact Or.inr ⟨o, r, hσ.toShows⟩
  | leaving o r n => simp [Slot.calls] at hacting
  | awaited o r n => simp [Slot.waiters] at hwaiting

/-- With no call in flight nothing is flagged removed. -/
theorem Quiet.not_flagged (h : l.Quiet) : ¬ l.Flagged o := by
  rintro ⟨i, -, -, hremoved⟩
  rcases h.shows i with hi | ⟨o, r, hi⟩ <;> simp [hi.entry, slotEntry, Entry.reset] at hremoved

theorem Quiet.distinct (h : l.Quiet) {i j : Fin N} (hi : l.IsActive o i) (hj : l.IsActive o j) :
    i = j := by
  obtain ⟨s, hs, -, -, rfl⟩ := h
  exact distinct_reachable hs i j o hi.2.1 hj.2.1

/-- Then add(o) goes by what contains(o) and the number of the occupied entries tell. -/
theorem Quiet.add_iff (h : l.Quiet) : (l.add (some o)).1 = true ↔
    l.contains (some o) = false ∧ l.occupied < N := by
  rw [add_true_iff, and_iff_right h.not_flagged]

/-- What add does to the answers of contains. -/
theorem add_contains_iff : (l.add (some o)).2.contains (some u) = true ↔
    l.contains (some u) = true ∨ u = o ∧ (l.add (some o)).1 = true := by
  rw [contains_iff, contains_iff, add_eq]
  cases hi : l.freeIndexFor o with
  | none => simp
  | some i =>
    obtain ⟨hbit, -⟩ := freeIndexFor_some hi
    simp only [and_true]
    constructor
    · rintro ⟨j, hj⟩
      by_cases heq : j = i
      · subst heq
        have hobs := hj.2.1
        simp only [Function.update_self, Option.some.injEq] at hobs
        exact Or.inr hobs.symm
      · simp only [IsActive, Function.update_of_ne heq] at hj
        exact Or.inl ⟨j, hj⟩
    · rintro (⟨j, hj⟩ | rfl)
      · have hne : j ≠ i := by
          rintro rfl
          simp [hj.1] at hbit
        exact ⟨j, by simpa only [IsActive, Function.update_of_ne hne] using hj⟩
      · exact ⟨i, by simp [IsActive]⟩

/-- remove takes its observer off the list and no other. -/
theorem Quiet.remove_contains_iff (h : l.Quiet) :
    (l.remove (some o)).2.contains (some u) = true ↔ l.contains (some u) = true ∧ u ≠ o := by
  cases hi : l.findActiveEntryIndexLocked o with
  | none =>
    have hsame : (l.remove (some o)).2 = l := by simp [RawObserverList.remove, hi]
    have hnone : ¬ l.contains (some o) = true := by
      rw [contains_iff]
      rintro ⟨j, hj⟩
      exact find_none hi j hj
    rw [hsame]
    constructor
    · intro hu
      refine ⟨hu, ?_⟩
      rintro rfl
      exact hnone hu
    · exact fun hu => hu.1
  | some i =>
    have hactive := find_some hi
    obtain ⟨r, hshows⟩ : ∃ r, l.Shows i (.listed o r 0) := by
      rcases h.shows i with hfree | ⟨x, r, hlisted⟩
      · have hbit := hactive.1
        rw [hfree.bit] at hbit
        simp [slotBit] at hbit
      · have hobs := hactive.2.1
        rw [hlisted.entry] at hobs
        obtain rfl : x = o := by simpa [slotEntry] using hobs
        exact ⟨r, hlisted⟩
    rw [remove_some hi hshows, contains_iff, contains_iff, if_pos rfl]
    constructor
    · rintro ⟨j, hj⟩
      have hne : j ≠ i := by
        rintro rfl
        have hbit := hj.1
        simp [put, slotBit] at hbit
      have hj' : l.IsActive u j := by
        simpa only [IsActive, put, Function.update_of_ne hne] using hj
      refine ⟨⟨j, hj'⟩, ?_⟩
      rintro rfl
      exact hne (h.distinct hj' hactive)
    · rintro ⟨⟨j, hj⟩, hne⟩
      have hji : j ≠ i := by
        rintro rfl
        exact hne (Option.some.inj (hj.2.1.symm.trans hactive.2.1))
      exact ⟨j, by simpa only [IsActive, put, Function.update_of_ne hji] using hj⟩

end CWrapper.ObserverList.RawObserverList
