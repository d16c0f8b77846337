import CWrapper.ObserverRemoval

/-!
The representation invariant of RawObserverList, in terms of the entries and the calls in
flight. The four ways to free an entry share it out among them: the slot that an entry shows
says whose turn it is.
-/
namespace CWrapper.ObserverList

open SlotLife Transition

variable {O Th : Type} {N w : ℕ} {s : State O Th N w}

def Call.running : Call O N w → Bool
  | .notify _ _ .done | .removeAndWait _ _ .done => false
  | _ => true

/-- What holds of the entries between any two sections under mLock. -/
structure Intact [DecidableEq O] (s : State O Th N w) : Prop where
  reset : ∀ i, s.list.mOccupiedBits i = false → s.list.mEntries i = Entry.reset
  not_null : ∀ i, s.list.mOccupiedBits i = true → (s.list.mEntries i).observer ≠ none
  distinct : ∀ i j, s.list.mOccupiedBits i = true → s.list.mOccupiedBits j = true →
    (s.list.mEntries i).observer = (s.list.mEntries j).observer → i = j
  activeCalls : ∀ i, s.list.mOccupiedBits i = true →
    (s.list.mEntries i).activeCalls = s.calls.countP (Call.actsOn i)
  -- releaseAfterNotify finds its entry occupied and counted
  released : ∀ call ∈ s.calls, ∀ i, call.actsOn i = true →
    s.list.mOccupiedBits i = true ∧ 0 < (s.list.mEntries i).activeCalls
  waitingRemoval : ∀ i, (s.list.mEntries i).waitingRemoval = true ↔
    s.calls.countP (Call.waitsOn i) = 1
  one_remover : ∀ i, s.calls.countP (Call.waitsOn i) ≤ 1
  removed : ∀ i, s.list.mOccupiedBits i = true → (s.list.mEntries i).removed = true →
    0 < (s.list.mEntries i).activeCalls ∨ (s.list.mEntries i).waitingRemoval = true
  at_rest : (∀ call ∈ s.calls, call.running = false) → ∀ o,
    s.list.contains o = true ↔
      o ≠ none ∧ ∃ i, s.list.mOccupiedBits i = true ∧ (s.list.mEntries i).observer = o

theorem Call.running_of_actsOn {call : Call O N w} {i : Fin N} (h : call.actsOn i = true) :
    call.running = true := by
  rcases call with ⟨_, _, _ | _ | _ | _⟩ | ⟨_, _, _ | _ | _⟩ <;>
    first | rfl | simp [Call.actsOn] at h

theorem Call.running_of_waitsOn {call : Call O N w} {i : Fin N} (h : call.waitsOn i = true) :
    call.running = true := by
  rcases call with ⟨_, _, _ | _ | _ | _⟩ | ⟨_, _, _ | _ | _⟩ <;>
    first | rfl | simp [Call.waitsOn] at h

theorem Holds.entry_cases {i : Fin N} {σ : Slot O} (h : Holds s i σ)
    (hbit : s.list.mOccupiedBits i = true) :
    ∃ o, σ.observer = some o ∧ (s.list.mEntries i).observer = some o := by
  rw [h.observer]
  rw [h.bit] at hbit
  cases σ with
  | free => simp [slotBit] at hbit
  | listed o | leaving o | awaited o => exact ⟨o, rfl, rfl⟩

theorem Holds.reset_of_bit {i : Fin N} {σ : Slot O} (h : Holds s i σ)
    (hbit : s.list.mOccupiedBits i = false) : s.list.mEntries i = Entry.reset := by
  have hσ := h.free_of_bit hbit
  rw [h.entry, hσ]
  rfl

theorem Holds.waitingRemoval_iff {i : Fin N} {σ : Slot O} (h : Holds s i σ) :
    (s.list.mEntries i).waitingRemoval = true ↔ s.calls.countP (Call.waitsOn i) = 1 := by
  rw [h.waiting, h.entry]
  cases σ <;> simp [slotEntry, Entry.reset, Slot.waiters]

/-- An entry whose removal is pending has someone to free it. -/
theorem Holds.removed_kept {i : Fin N} {σ : Slot O} (h : Holds s i σ)
    (hremoved : (s.list.mEntries i).removed = true) :
    0 < (s.list.mEntries i).activeCalls ∨ (s.list.mEntries i).waitingRemoval = true := by
  rw [h.entry] at hremoved ⊢
  cases σ with
  | free | listed => simp [slotEntry, Entry.reset] at hremoved
  | leaving o r others => exact Or.inl (Nat.succ_pos others)
  | awaited => exact Or.inr rfl

/-- With no call running a slot is free or holds a listed observer. -/
theorem Holds.at_rest {i : Fin N} {σ : Slot O} (h : Holds s i σ)
    (hrest : ∀ call ∈ s.calls, call.running = false) :
    (s.list.mEntries i).removed = false := by
  have hacting : s.calls.countP (Call.actsOn i) = 0 := by
    refine List.countP_eq_zero.mpr fun call hcall hacts => ?_
    have hrunning := Call.running_of_actsOn hacts
    simp [hrest call hcall] at hrunning
  have hwaiting : s.calls.countP (Call.waitsOn i) = 0 := by
    refine List.countP_eq_zero.mpr fun call hcall hwaits => ?_
    have hrunning := Call.running_of_waitsOn hwaits
    simp [hrest call hcall] at hrunning
  rw [h.acting] at hacting
  rw [h.waiting] at hwaiting
  rw [h.entry]
  cases σ with
  | free | listed => rfl
  | leaving => simp [Slot.calls] at hacting
  | awaited => simp [Slot.waiters] at hwaiting

theorem contains_iff [DecidableEq O] (l : RawObserverList O N w) (o : O) :
    l.contains (some o) = true ↔ ∃ i, l.IsActive o i := by
  simp [RawObserverList.contains, List.any_eq_true]

section Reachable

variable [DecidableEq O] [DecidableEq Th]

/-- The entries stay intact under every interleaving of the sections. -/
theorem intact_reachable (hs : (system O Th N w).Reachable Machine.anyStep s) : Intact s := by
  have hc := consistent_reachable hs
  have hd := distinct_reachable hs
  refine
    { reset := fun i hbit => ?_, not_null := fun i hbit => ?_, distinct := fun i j hi hj heq => ?_
      activeCalls := fun i hbit => ?_, released := fun call hcall i hacts => ?_
      waitingRemoval := fun i => ?_, one_remover := fun i => ?_, removed := fun i _ hrem => ?_
      at_rest := fun hrest o => ?_ }
  · obtain ⟨σ, hσ⟩ := hc.slots i
    exact hσ.reset_of_bit hbit
  · obtain ⟨σ, hσ⟩ := hc.slots i
    obtain ⟨o, -, ho⟩ := hσ.entry_cases hbit
    simp [ho]
  · obtain ⟨σ, hσ⟩ := hc.slots i
    obtain ⟨o, -, ho⟩ := hσ.entry_cases hi
    exact hd i j o ho (heq ▸ ho)
  · obtain ⟨σ, hσ⟩ := hc.slots i
    rw [hσ.activeCalls, hσ.acting]
  · obtain ⟨c, hget⟩ := List.mem_iff_getElem?.mp hcall
    obtain ⟨σ, hσ⟩ := hc.slots i
    have hpos := hσ.calls_pos hget hacts
    refine ⟨?_, hσ.activeCalls ▸ hpos⟩
    by_contra hbit
    obtain rfl := hσ.free_of_bit (by simpa using hbit)
    simp [Slot.calls] at hpos
  · obtain ⟨σ, hσ⟩ := hc.slots i
    exact hσ.waitingRemoval_iff
  · obtain ⟨σ, hσ⟩ := hc.slots i
    rw [hσ.waiting]
    cases σ <;> simp [Slot.waiters]
  · obtain ⟨σ, hσ⟩ := hc.slots i
    exact hσ.removed_kept hrem
  · rcases o with _ | o
    · simp [RawObserverList.contains]
    · rw [contains_iff]
      constructor
      · rintro ⟨i, hbit, hobs, -⟩
        exact ⟨by simp, i, hbit, hobs⟩
      · rintro ⟨-, i, hbit, hobs⟩
        obtain ⟨σ, hσ⟩ := hc.slots i
        exact ⟨i, hbit, hobs, hσ.at_rest hrest⟩

/-- A remover waits for the one action on the observer. -/
theorem intact_reachable_waiting :
    Intact ((system Unit Bool 1 8).after Machine.anyStep State.start
      [.add false (some ()), .notify false, .resume false, .removeAndWait true (some ())]) :=
  intact_reachable (Machine.reachable_after initial_start (by decide +kernel))

end Reachable

end CWrapper.ObserverList
