import CWrapper.ObserverInvariant

/-!
What add answers. The entry of an observer whose removal is pending stays occupied, and add
takes it for a registered one, while contains and remove pass over it.
-/
namespace CWrapper.ObserverList

open SlotLife Transition

variable {O Th : Type} {N w : ℕ}

namespace RawObserverList

def occupied (l : RawObserverList O N w) : ℕ := (List.finRange N).countP l.mOccupiedBits

def Flagged (l : RawObserverList O N w) (o : O) : Prop :=
  ∃ i, l.mOccupiedBits i = true ∧ (l.mEntries i).observer = some o ∧
    (l.mEntries i).removed = true

variable {l : RawObserverList O N w} {o : O}

theorem occupied_le : l.occupied ≤ N := by
  have hle := List.countP_le_length (p := l.mOccupiedBits) (l := List.finRange N)
  rwa [List.length_finRange] at hle

theorem occupied_lt_iff : l.occupied < N ↔ ∃ i, l.mOccupiedBits i = false := by
  rw [lt_iff_le_and_ne, and_iff_right occupied_le, occupied]
  have hall : (List.finRange N).countP l.mOccupiedBits = N ↔ ∀ i, l.mOccupiedBits i = true := by
    have heq := List.countP_eq_length (p := l.mOccupiedBits) (l := List.finRange N)
    rw [List.length_finRange] at heq
    rw [heq]
    exact ⟨fun h i => h i (List.mem_finRange i), fun h i _ => h i⟩
  rw [ne_eq, hall, not_forall]
  exact exists_congr fun i => by simp

variable [DecidableEq O]

/-- The entries of `o` are those that contains finds and those that are flagged. -/
theorem holder_iff : (∃ i, l.mOccupiedBits i = true ∧ (l.mEntries i).observer = some o) ↔
    l.contains (some o) = true ∨ l.Flagged o := by
  rw [contains_iff]
  constructor
  · rintro ⟨i, hbit, hobs⟩
    cases hremoved : (l.mEntries i).removed with
    | false => exact Or.inl ⟨i, hbit, hobs, hremoved⟩
    | true => exact Or.inr ⟨i, hbit, hobs, hremoved⟩
  · rintro (⟨i, hbit, hobs, -⟩ | ⟨i, hbit, hobs, -⟩)
    · exact ⟨i, hbit, hobs⟩
    · exact ⟨i, hbit, hobs⟩

/-- The loop of add finds no index when an entry holds the observer or no slot is free. -/
theorem scanFree_none (is : List (Fin N)) (free : Option (Fin N))
    (h : l.scanFree o is free = none) :
    (∃ j ∈ is, l.mOccupiedBits j = true ∧ (l.mEntries j).observer = some o) ∨
      free = none ∧ ∀ j ∈ is, l.mOccupiedBits j = true := by
  induction is generalizing free with
  | nil => exact Or.inr ⟨h, by simp⟩
  | cons k is ih =>
    unfold scanFree at h
    split at h
    · rename_i hocc
      split at h
      · rename_i hobs
        exact Or.inl ⟨k, List.mem_cons_self, hocc, hobs⟩
      · rcases ih free h with ⟨j, hj, hheld⟩ | ⟨hfree, hall⟩
        · exact Or.inl ⟨j, List.mem_cons_of_mem k hj, hheld⟩
        · refine Or.inr ⟨hfree, fun j hj => ?_⟩
          rcases List.mem_cons.mp hj with rfl | hj
          · exact hocc
          · exact hall j hj
    · rcases ih _ h with ⟨j, hj, hheld⟩ | ⟨hfree, -⟩
      · exact Or.inl ⟨j, List.mem_cons_of_mem k hj, hheld⟩
      · cases free <;> simp at hfree

theorem freeIndexFor_isSome_iff : (l.freeIndexFor o).isSome = true ↔
    l.contains (some o) = false ∧ ¬ l.Flagged o ∧ l.occupied < N := by
  rw [occupied_lt_iff]
  constructor
  · intro h
    obtain ⟨i, hi⟩ := Option.isSome_iff_exists.mp h
    obtain ⟨hbit, hnone⟩ := freeIndexFor_some hi
    have hholder : ¬ (l.contains (some o) = true ∨ l.Flagged o) := by
      rw [← holder_iff]
      rintro ⟨j, hj, hobs⟩
      exact hnone j hj hobs
    rw [not_or, Bool.not_eq_true] at hholder
    exact ⟨hholder.1, hholder.2, i, hbit⟩
  · rintro ⟨hcontains, hflagged, i, hbit⟩
    by_contra hnone
    rw [Bool.not_eq_true, Option.isSome_eq_false_iff, Option.isNone_iff_eq_none] at hnone
    rcases scanFree_none _ _ hnone with ⟨j, -, hheld⟩ | ⟨-, hall⟩
    · rcases holder_iff.mp ⟨j, hheld⟩ with hin | hin
      · simp [hcontains] at hin
      · exact hflagged hin
    · simp [hall i (List.mem_finRange i)] at hbit

theorem add_eq : l.add (some o) = match l.freeIndexFor o with
    | none => (false, l)
    | some i => (true,
        { mEntries := Function.update l.mEntries i ⟨some o, 0, l.mGeneration + 1#w, false, false⟩
          mOccupiedBits := Function.update l.mOccupiedBits i true
          mGeneration := l.mGeneration + 1#w }) := rfl

/-- add(o) succeeds exactly when it finds a free slot and no entry for `o`, be it flagged removed.
-/
theorem add_true_iff : (l.add (some o)).1 = true ↔
    l.contains (some o) = false ∧ ¬ l.Flagged o ∧ l.occupied < N := by
  rw [← freeIndexFor_isSome_iff, add_eq]
  cases l.freeIndexFor o <;> simp

/-- A refused add leaves the list as it was. -/
theorem add_refused (h : (l.add (some o)).1 = false) : (l.add (some o)).2 = l := by
  rw [add_eq] at h ⊢
  cases hi : l.freeIndexFor o with
  | none => rfl
  | some i => simp [hi] at h

theorem add_contains (h : (l.add (some o)).1 = true) :
    (l.add (some o)).2.contains (some o) = true := by
  rw [add_eq] at h ⊢
  cases hi : l.freeIndexFor o with
  | none => simp [hi] at h
  | some i =>
    rw [contains_iff]
    exact ⟨i, by simp, by simp, by simp⟩

/-- add(o) does what contains(o) and the number of occupied entries tell. -/
structure AddAgrees (l : RawObserverList O N w) (o : O) : Prop where
  answer : (l.add (some o)).1 = true ↔ l.contains (some o) = false ∧ l.occupied < N
  added : (l.add (some o)).1 = true → (l.add (some o)).2.contains (some o) = true
  refused : (l.add (some o)).1 = false → (l.add (some o)).2 = l

end RawObserverList

open RawObserverList

variable [DecidableEq O] {s : State O Th N w}

/-- An observer has one entry, so a flagged one is not contained. -/
theorem Distinct.contains_of_flagged (h : Distinct s) {o : O} (ho : s.list.Flagged o) :
    s.list.contains (some o) = false := by
  obtain ⟨i, -, hobs, hremoved⟩ := ho
  by_contra hcontains
  rw [Bool.not_eq_false, contains_iff] at hcontains
  obtain ⟨j, -, hobs', hlisted⟩ := hcontains
  obtain rfl := h i j o hobs hobs'
  simp [hremoved] at hlisted

variable [DecidableEq Th]

/-- add agrees with contains unless a pending removal of the observer takes up an entry while
there is room. -/
theorem add_agrees_iff (hs : (system O Th N w).Reachable Machine.anyStep s) (o : O) :
    AddAgrees s.list o ↔ (s.list.Flagged o → s.list.occupied = N) := by
  have hcontains := (distinct_reachable hs).contains_of_flagged (o := o)
  constructor
  · intro h hflagged
    by_contra hroom
    have hadd := h.answer.mpr ⟨hcontains hflagged, lt_of_le_of_ne occupied_le hroom⟩
    exact (add_true_iff.mp hadd).2.1 hflagged
  · intro h
    refine ⟨?_, add_contains, add_refused⟩
    rw [add_true_iff]
    constructor
    · rintro ⟨hnot, -, hroom⟩
      exact ⟨hnot, hroom⟩
    · rintro ⟨hnot, hroom⟩
      exact ⟨hnot, fun hflagged => hroom.ne (h hflagged), hroom⟩

/-- One thread notifies and is in the callback of the observer, which has removed itself. -/
def removedInCallback : State Unit Unit 2 8 :=
  (system Unit Unit 2 8).after Machine.anyStep State.start
    [.add () (some ()), .notify (), .resume (), .remove () (some ())]

theorem removedInCallback_reachable :
    (system Unit Unit 2 8).Reachable Machine.anyStep removedInCallback :=
  Machine.reachable_after initial_start (by decide +kernel)

theorem add_agrees_iff_removed : AddAgrees removedInCallback.list () ↔
    (removedInCallback.list.Flagged () → removedInCallback.list.occupied = 2) :=
  add_agrees_iff removedInCallback_reachable ()

/-- From its own callback an observer does not get back on the list. -/
theorem add_refused_in_callback :
    ¬ ∀ s : State Unit Unit 2 8, (system Unit Unit 2 8).Reachable Machine.anyStep s →
      ∀ o, AddAgrees s.list o := by
  intro h
  have hagrees := h removedInCallback removedInCallback_reachable ()
  have hadd := hagrees.answer.mpr ⟨by decide +kernel, by decide +kernel⟩
  have hrefused : (removedInCallback.list.add (some ())).1 = false := by decide +kernel
  rw [hrefused] at hadd
  cases hadd

end CWrapper.ObserverList
