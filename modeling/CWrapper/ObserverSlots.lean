import Mathlib.Data.List.Count
import CWrapper.ObserverList
import CWrapper.SlotLife

/-!
Each entry of the list shows a slot of SlotLife, and each operation replaces at most one slot
by what a step of its life makes of it. The calls in flight account for the slot's counts:
activeCalls is the number of actions on the slot, waitingRemoval the one waiting remover.
-/
namespace CWrapper.ObserverList

open SlotLife Transition

variable {O Th : Type} {N w : ℕ}

def slotEntry (w : ℕ) : Slot O → Entry O w
  | .free => .reset
  | .listed o r calls => ⟨some o, calls, BitVec.ofNat w r, false, false⟩
  | .leaving o r others => ⟨some o, others + 1, BitVec.ofNat w r, true, false⟩
  | .awaited o r calls => ⟨some o, calls, BitVec.ofNat w r, true, true⟩

def slotBit : Slot O → Bool
  | .free => false
  | _ => true

namespace RawObserverList

def put (l : RawObserverList O N w) (i : Fin N) (σ : Slot O) : RawObserverList O N w where
  mEntries := Function.update l.mEntries i (slotEntry w σ)
  mOccupiedBits := Function.update l.mOccupiedBits i (slotBit σ)
  mGeneration := l.mGeneration

structure Shows (l : RawObserverList O N w) (i : Fin N) (σ : Slot O) : Prop where
  entry : l.mEntries i = slotEntry w σ
  bit : l.mOccupiedBits i = slotBit σ

variable {l : RawObserverList O N w} {i j : Fin N} {σ τ : Slot O} {o : O} {r n : ℕ}

theorem Shows.put_self : (l.put i σ).Shows i σ :=
  ⟨Function.update_self .., Function.update_self ..⟩

theorem Shows.put_of_ne (h : l.Shows j σ) (hj : j ≠ i) : (l.put i τ).Shows j σ :=
  ⟨(Function.update_of_ne hj ..).trans h.entry, (Function.update_of_ne hj ..).trans h.bit⟩

theorem setEntry_eq_put (τ : Slot O) (h : l.mOccupiedBits i = slotBit τ) :
    l.setEntry i (slotEntry w τ) = l.put i τ := by
  simp [setEntry, put, ← h]

theorem reset_setEntry (e : Entry O w) :
    (l.setEntry i e).resetEntryLocked i = l.put i .free := by
  simp [setEntry, resetEntryLocked, put, slotEntry, slotBit]

theorem Shows.active_iff (h : l.Shows i σ) : l.IsActive o i ↔ ∃ r, σ.Listed o r := by
  unfold IsActive
  rw [h.entry, h.bit]
  cases σ <;> simp [slotEntry, slotBit, Entry.reset, Slot.Listed, eq_comm]

section Search

variable [DecidableEq O]

theorem scanFree_some (is : List (Fin N)) (free : Option (Fin N))
    (h : l.scanFree o is free = some i) :
    (free = some i ∨ i ∈ is ∧ l.mOccupiedBits i = false) ∧
      ∀ j ∈ is, l.mOccupiedBits j = true → (l.mEntries j).observer ≠ some o := by
  induction is generalizing free with
  | nil => exact ⟨Or.inl h, by simp⟩
  | cons k is ih =>
    unfold scanFree at h
    split at h
    · split at h
      · simp at h
      · rename_i hocc hne
        obtain ⟨hi, hall⟩ := ih free h
        refine ⟨hi.imp_right fun ⟨hmem, hbit⟩ => ⟨List.mem_cons_of_mem k hmem, hbit⟩, ?_⟩
        intro j hj hbit
        rcases List.mem_cons.mp hj with rfl | hj
        · exact hne
        · exact hall j hj hbit
    · rename_i hocc
      obtain ⟨hi, hall⟩ := ih _ h
      refine ⟨?_, ?_⟩
      · rcases hi with hfree | ⟨hmem, hbit⟩
        · rcases free with _ | f
          · have hk : k = i := Option.some.inj hfree
            subst hk
            exact Or.inr ⟨List.mem_cons_self, by simpa using hocc⟩
          · exact Or.inl hfree
        · exact Or.inr ⟨List.mem_cons_of_mem k hmem, hbit⟩
      · intro j hj hbit
        rcases List.mem_cons.mp hj with rfl | hj
        · exact absurd hbit hocc
        · exact hall j hj hbit

/-- add takes a free slot, and only when no occupied entry holds the observer. -/
theorem freeIndexFor_some (h : l.freeIndexFor o = some i) :
    l.mOccupiedBits i = false ∧
      ∀ j, l.mOccupiedBits j = true → (l.mEntries j).observer ≠ some o := by
  obtain ⟨hi, hall⟩ := scanFree_some (List.finRange N) none h
  refine ⟨?_, fun j => hall j (List.mem_finRange j)⟩
  rcases hi with hnone | ⟨-, hbit⟩
  · simp at hnone
  · exact hbit

theorem find_some (h : l.findActiveEntryIndexLocked o = some i) : l.IsActive o i := by
  simpa using List.find?_some h

theorem find_none (h : l.findActiveEntryIndexLocked o = none) (i : Fin N) : ¬ l.IsActive o i := by
  simpa using List.find?_eq_none.mp h i (List.mem_finRange i)

theorem remove_some (hi : l.findActiveEntryIndexLocked o = some i)
    (h : l.Shows i (.listed o r n)) :
    l.remove (some o) =
      (.removed, l.put i (if n = 0 then .free else .leaving o r (n - 1))) := by
  have hentry := h.entry
  simp only [remove, hi, hentry, slotEntry, and_true]
  rcases n with _ | n
  · simp only [if_true, reset_setEntry]
  · simp only [Nat.succ_ne_zero, if_false, Nat.add_sub_cancel]
    rw [← setEntry_eq_put (.leaving o r n) h.bit]
    rfl

theorem removeAndWait_some (hi : l.findActiveEntryIndexLocked o = some i)
    (h : l.Shows i (.listed o r n)) :
    l.removeAndWait (some o) =
      if n = 0 then (.inl .removed, l.put i .free) else (.inr i, l.put i (.awaited o r n)) := by
  have hentry := h.entry
  simp only [removeAndWait, hi, hentry, slotEntry]
  rcases n with _ | n
  · simp only [if_true, reset_setEntry]
  · simp only [Nat.succ_ne_zero, if_false]
    rw [← setEntry_eq_put (.awaited o r (n + 1)) h.bit]
    rfl

end Search

theorem acquire_listed {g : BitVec w} (h : l.Shows i (.listed o r n))
    (hg : ¬ g < BitVec.ofNat w r) :
    l.acquireForNotify i g = (some o, l.put i (.listed o r (n + 1))) := by
  simp only [acquireForNotify, h.entry, h.bit, slotEntry, slotBit, hg, if_false,
    Bool.true_eq_false, Bool.false_eq_true]
  rw [← setEntry_eq_put (.listed o r (n + 1)) h.bit]
  rfl

theorem acquire_refused {g : BitVec w} (h : l.Shows i σ)
    (hσ : ∀ o r, σ.Listed o r → g < BitVec.ofNat w r) :
    l.acquireForNotify i g = (none, l) := by
  cases σ with
  | free => simp [acquireForNotify, h.bit, slotBit]
  | listed o r n =>
    have hg := hσ o r ⟨n, rfl⟩
    simp [acquireForNotify, h.entry, h.bit, slotEntry, slotBit, hg]
  | leaving o r n => simp [acquireForNotify, h.entry, h.bit, slotEntry, slotBit]
  | awaited o r n => simp [acquireForNotify, h.entry, h.bit, slotEntry, slotBit]

/-- The last call leaves it to the waiting remover to reset the entry, and broadcasts. -/
theorem release_put (h : l.Shows i σ) (hσ : 0 < σ.calls) :
    l.releaseAfterNotify i =
      (decide (σ.waiters = 1 ∧ σ.release.calls = 0), l.put i σ.release) := by
  cases σ with
  | free => simp [Slot.calls] at hσ
  | listed o r n =>
    obtain ⟨m, rfl⟩ : ∃ m, n = m + 1 := ⟨n - 1, by simp only [Slot.calls] at hσ; omega⟩
    simp only [releaseAfterNotify, h.entry, h.bit, slotEntry, slotBit, Slot.release]
    rw [← setEntry_eq_put (.listed o r m) h.bit]
    simp [slotEntry, Slot.waiters]
  | leaving o r n =>
    rcases n with _ | n
    · simp [releaseAfterNotify, h.entry, h.bit, slotEntry, slotBit, Slot.release,
        Slot.waiters, reset_setEntry]
    · simp only [releaseAfterNotify, h.entry, h.bit, slotEntry, slotBit, Slot.release]
      rw [← setEntry_eq_put (.leaving o r n) h.bit]
      simp [slotEntry, Slot.waiters]
  | awaited o r n =>
    obtain ⟨m, rfl⟩ : ∃ m, n = m + 1 := ⟨n - 1, by simp only [Slot.calls] at hσ; omega⟩
    simp only [releaseAfterNotify, h.entry, h.bit, slotEntry, slotBit, Slot.release]
    rw [← setEntry_eq_put (.awaited o r m) h.bit]
    rcases m with _ | m <;> simp [slotEntry, Slot.waiters, Slot.calls]

/-- No slot of a list that shows slots is left to releaseRemoved. -/
theorem releaseRemoved_eq (h : ∀ i, ∃ σ, l.Shows i σ) : l.releaseRemoved = l := by
  have hat (i : Fin N) : l.releaseRemovedAt i = l := by
    obtain ⟨σ, hσ⟩ := h i
    unfold releaseRemovedAt
    rw [hσ.entry, hσ.bit]
    cases σ <;> simp [slotEntry, slotBit]
  unfold releaseRemoved
  induction List.finRange N with
  | nil => rfl
  | cons i is ih => rw [List.foldl_cons, hat i, ih]

end RawObserverList

end CWrapper.ObserverList
