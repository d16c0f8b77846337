import Mathlib.Data.List.FinRange
import CWrapper.Sequences
import CWrapper.Pool

/-!
What Pool is for: a stack of the blocks that are not in use. The free list of a pool leads
through this stack and the bitmap tells which blocks are not on it, so that the pool answers
every sequence of calls as the stack does.
-/
namespace CWrapper.Pool

open LinkedStack Simulation

structure Allocator (n : ℕ) where
  free : List (Fin n)
  nodup : free.Nodup

namespace Allocator

variable {n : ℕ}

def full (n : ℕ) : Allocator n := ⟨List.finRange n, List.nodup_finRange n⟩

def alloc (a : Allocator n) : Option (Fin n) × Allocator n :=
  match a with
  | ⟨[], h⟩ => (none, ⟨[], h⟩)
  | ⟨i :: rest, h⟩ => (some i, ⟨rest, h.of_cons⟩)

def release (a : Allocator n) (i : Fin n) (hi : i ∉ a.free) : Allocator n :=
  ⟨i :: a.free, List.nodup_cons.mpr ⟨hi, a.nodup⟩⟩

def live (a : Allocator n) : List (Fin n) := (List.finRange n).filter fun i => i ∉ a.free

end Allocator

variable {L : Layout}

def Layout.blockAt (L : Layout) (ptr : UInt64) : Option (Fin L.Capacity) :=
  if ptr = 0 then none else (List.finRange L.Capacity).find? fun i => L.block i == ptr

def specification (L : Layout) : Specification (Allocator L.Capacity) Operation Result where
  initial := .full L.Capacity
  apply a
    | .alloc => (.pointer (a.alloc.1.map L.block), a.alloc.2)
    | .free ptr =>
        if ptr = 0 then (.answer true, a)
        else match L.blockAt ptr with
          | none => (.answer false, a)
          | some i =>
              if hi : i ∉ a.free then (.answer true, a.release i hi) else (.answer false, a)
    | .clear => (.cleaned (a.live.map L.block), .full L.Capacity)
    | .reset => (.done, .full L.Capacity)
    | .isAllocated ptr => (.answer ((L.blockAt ptr).any fun i => i ∉ a.free), a)

section Addresses

theorem toNat_block (i : Fin L.Capacity) :
    (L.block i).toNat = L.start.toNat + i * L.sizeofT := by
  have hlt : i * L.sizeofT < L.Capacity * L.sizeofT :=
    Nat.mul_lt_mul_of_pos_right i.isLt L.sizeofT_pos
  have hfits := L.fits
  have hoffset : (UInt64.ofNat (i * L.sizeofT)).toNat = i * L.sizeofT :=
    UInt64.toNat_ofNat_of_lt (Nat.lt_trans hlt L.size_lt)
  unfold Layout.block
  rw [UInt64.toNat_add, hoffset]
  exact Nat.mod_eq_of_lt (by simp only [UInt64.size] at hfits; omega)

theorem block_injective : Function.Injective L.block := by
  intro i j h
  have heq := congrArg UInt64.toNat h
  rw [toNat_block, toNat_block] at heq
  exact Fin.ext (Nat.eq_of_mul_eq_mul_right L.sizeofT_pos (Nat.add_left_cancel heq))

theorem valid_invalid : L.valid L.INVALID_INDEX = none := by
  simp [Layout.valid, Layout.INVALID_INDEX]

@[simp] theorem valid_castSucc (i : Fin L.Capacity) : L.valid i.castSucc = some i := by
  simp [Layout.valid]

/-- getIndex finds the blocks, and nothing else. -/
theorem valid_getIndex (ptr : UInt64) (i : Fin L.Capacity) :
    L.valid (L.getIndex ptr) = some i ↔ ptr ≠ 0 ∧ L.block i = ptr := by
  have hs := L.toNat_sizeofT
  have hsize := L.toNat_storageSize
  unfold Layout.getIndex
  by_cases hnull : ptr = 0
  · simp [hnull, valid_invalid]
  · rw [if_neg hnull]
    by_cases hlow : ptr < L.start
    · rw [if_pos hlow, valid_invalid]
      refine iff_of_false (by simp) ?_
      rintro ⟨-, rfl⟩
      rw [UInt64.lt_iff_toNat_lt, toNat_block] at hlow
      omega
    · rw [if_neg hlow]
      rw [UInt64.not_lt, UInt64.le_iff_toNat_le] at hlow
      have hoffset : (ptr - L.start).toNat = ptr.toNat - L.start.toNat :=
        UInt64.toNat_sub_of_le _ _ (UInt64.le_iff_toNat_le.mpr hlow)
      by_cases hhigh : ptr - L.start ≥ L.STORAGE_SIZE
      · rw [dif_pos hhigh, valid_invalid]
        refine iff_of_false (by simp) ?_
        rintro ⟨-, rfl⟩
        rw [ge_iff_le, UInt64.le_iff_toNat_le, hoffset, toNat_block, hsize] at hhigh
        have hlt : i * L.sizeofT < L.Capacity * L.sizeofT :=
          Nat.mul_lt_mul_of_pos_right i.isLt L.sizeofT_pos
        omega
      · rw [dif_neg hhigh]
        by_cases hmod : (ptr - L.start) % UInt64.ofNat L.sizeofT ≠ 0
        · rw [if_pos hmod, valid_invalid]
          refine iff_of_false (by simp) ?_
          rintro ⟨-, rfl⟩
          refine hmod (UInt64.toNat_inj.mp ?_)
          rw [UInt64.toNat_mod, hoffset, toNat_block, hs, Nat.add_sub_cancel_left,
            Nat.mul_mod_left]
          rfl
        · rw [if_neg hmod]
          have hmod' : (ptr.toNat - L.start.toNat) % L.sizeofT = 0 := by
            have h := congrArg UInt64.toNat (not_not.mp hmod)
            rwa [UInt64.toNat_mod, hoffset, hs] at h
          have hdiv := Nat.div_mul_cancel (Nat.dvd_of_mod_eq_zero hmod')
          simp only [Layout.valid, L.quotient_lt hhigh, dite_true, Option.some.injEq]
          rw [← UInt64.toNat_inj, toNat_block, Fin.ext_iff]
          simp only [UInt64.toNat_div, hoffset, hs]
          constructor
          · intro h
            refine ⟨hnull, ?_⟩
            rw [← h, hdiv]
            omega
          · rintro ⟨-, h⟩
            rw [← h, Nat.add_sub_cancel_left, Nat.mul_div_cancel _ L.sizeofT_pos]

theorem blockAt_eq_some (ptr : UInt64) (i : Fin L.Capacity) :
    L.blockAt ptr = some i ↔ ptr ≠ 0 ∧ L.block i = ptr := by
  unfold Layout.blockAt
  by_cases hnull : ptr = 0
  · simp [hnull]
  · rw [if_neg hnull]
    constructor
    · intro h
      exact ⟨hnull, by simpa using List.find?_some h⟩
    · rintro ⟨-, rfl⟩
      cases h : (List.finRange L.Capacity).find? fun j => L.block j == L.block i with
      | none => simpa using List.find?_eq_none.mp h i (List.mem_finRange i)
      | some j => rw [block_injective (by simpa using List.find?_some h : L.block j = L.block i)]

theorem valid_getIndex_eq (ptr : UInt64) : L.valid (L.getIndex ptr) = L.blockAt ptr := by
  refine Option.ext fun i => ?_
  rw [valid_getIndex, blockAt_eq_some]

end Addresses

section Bits

variable {p : Pool L} {i j : Fin L.Capacity}

theorem isUsed_eq_test : p.isUsed i = Bitmap.test p.mUsedMap (L.chunk i) (i % BITS_PER_CHUNK) :=
  rfl

theorem place_lt (i : ℕ) : i % BITS_PER_CHUNK < 32 := Nat.mod_lt i (by decide)

/-- An index is determined by its chunk and its place in it. -/
theorem address_inj :
    L.chunk j = L.chunk i ∧ j % BITS_PER_CHUNK = i % BITS_PER_CHUNK ↔ j = i := by
  constructor
  · rintro ⟨hchunk, hplace⟩
    have hdiv : (j : ℕ) / BITS_PER_CHUNK = i / BITS_PER_CHUNK := congrArg Fin.val hchunk
    refine Fin.ext ?_
    rw [← Nat.div_add_mod j BITS_PER_CHUNK, hdiv, hplace, Nat.div_add_mod]
  · rintro rfl
    exact ⟨rfl, rfl⟩

theorem isUsed_setUsed : (p.setUsed i).isUsed j = (decide (j = i) || p.isUsed j) := by
  rw [isUsed_eq_test, isUsed_eq_test, ← decide_eq_decide.mpr (address_inj (L := L))]
  exact Bitmap.test_insert (place_lt i) (place_lt j)

theorem isUsed_setFree : (p.setFree i).isUsed j = (!decide (j = i) && p.isUsed j) := by
  rw [isUsed_eq_test, isUsed_eq_test, ← decide_eq_decide.mpr (address_inj (L := L))]
  exact Bitmap.test_erase (place_lt i) (place_lt j)

end Bits

/-- The free list and the bitmap of the pool are those of the stack. -/
structure Represents (p : Pool L) (a : Allocator L.Capacity) : Prop where
  chain : Linked (fun i => L.valid (p.mNext i)) (L.valid p.mFreeHead) a.free
  used : ∀ i, p.isUsed i = decide (i ∉ a.free)

variable {p : Pool L} {a : Allocator L.Capacity}

/-- The constructor puts every block on the stack, the first one on top. -/
theorem represents_new : Represents (new L) (.full L.Capacity) where
  chain := by
    have hhead : L.valid (new L).mFreeHead = (List.finRange L.Capacity).head? := by
      simp [new, Layout.valid, L.capacity_pos, List.head?_eq_getElem?]
    rw [hhead]
    refine linked_of_getElem fun k i hk => ?_
    obtain ⟨hlt, rfl⟩ := List.getElem?_eq_some_iff.mp hk
    simp only [List.length_finRange] at hlt
    simp only [new, sequential, List.getElem_finRange, Fin.val_cast]
    by_cases hnext : k + 1 < L.Capacity
    · simp [hnext, Layout.valid]
    · simp [hnext, valid_invalid]
  used i := by simp [new, isUsed_eq_test, Bitmap.test_zero, Allocator.full]

/-- alloc takes the block on top of the stack. -/
theorem Represents.alloc (h : Represents p a) :
    p.alloc.1 = a.alloc.1.map L.block ∧ Represents p.alloc.2 a.alloc.2 := by
  have hchain := h.chain
  rcases a with ⟨_ | ⟨i, rest⟩, hnodup⟩
  · have hhead : L.valid p.mFreeHead = none := hchain
    simp only [Pool.alloc, hhead, Allocator.alloc, Option.map_none, true_and]
    exact h
  · obtain ⟨hhead, hrest⟩ := hchain
    simp only [Pool.alloc, hhead, Allocator.alloc, Option.map_some, true_and]
    refine ⟨hrest, fun j => ?_⟩
    rw [isUsed_setUsed]
    have hj := h.used j
    by_cases hji : j = i
    · subst hji
      simpa using (List.nodup_cons.mp hnodup).1
    · simpa [hji, isUsed] using hj

/-- free() of a block in use puts it back on top. -/
theorem Represents.release (h : Represents p a) {i : Fin L.Capacity} (hi : i ∉ a.free) :
    Represents { p.setFree i with
      mNext := Function.update p.mNext i p.mFreeHead
      mFreeHead := i.castSucc } (a.release i hi) where
  chain := by
    have hpush := h.chain.push hi
    simp only [valid_castSucc]
    refine hpush.congr fun j _ => ?_
    by_cases hji : j = i
    · simp [hji]
    · simp [hji]
  used j := by
    have hused : ({ p.setFree i with
        mNext := Function.update p.mNext i p.mFreeHead
        mFreeHead := i.castSucc } : Pool L).isUsed j = (p.setFree i).isUsed j := rfl
    rw [hused, isUsed_setFree, h.used j]
    simp [Allocator.release]

/-- What free does with the address of a block, and with any other address. -/
theorem Represents.free_cases (h : Represents p a) (ptr : UInt64) :
    ptr = 0 ∧ p.free ptr = (true, p) ∨
      (∃ i, ∃ hi : i ∉ a.free, ptr ≠ 0 ∧ L.blockAt ptr = some i ∧ (p.free ptr).1 = true ∧
        Represents (p.free ptr).2 (a.release i hi)) ∨
      ptr ≠ 0 ∧ (∀ i, L.blockAt ptr = some i → i ∈ a.free) ∧ p.free ptr = (false, p) := by
  unfold free
  rw [valid_getIndex_eq]
  by_cases hnull : ptr = 0
  · exact Or.inl ⟨hnull, if_pos hnull⟩
  · refine Or.inr ?_
    rw [if_neg hnull]
    cases hat : L.blockAt ptr with
    | none => exact Or.inr ⟨hnull, by simp, rfl⟩
    | some i =>
      by_cases hi : i ∈ a.free
      · have hused : p.isUsed i = false := by simpa [hi] using h.used i
        refine Or.inr ⟨hnull, ?_, by simp [hused]⟩
        rintro j ⟨⟩
        exact hi
      · have hused : p.isUsed i = true := by simpa [hi] using h.used i
        refine Or.inl ⟨i, hi, hnull, rfl, by simp [hused], ?_⟩
        simpa [hused] using h.release hi

theorem Represents.live (h : Represents p a) :
    (List.finRange L.Capacity).filter p.isUsed = a.live :=
  List.filter_congr fun i _ => h.used i

/-- Each operation answers as it does on the stack of free blocks. -/
theorem Represents.apply (h : Represents p a) (op : Operation) :
    (p.apply op).1 = ((specification L).apply a op).1 ∧
      Represents (p.apply op).2 ((specification L).apply a op).2 := by
  cases op with
  | alloc =>
    obtain ⟨hptr, hrep⟩ := h.alloc
    exact ⟨congrArg Result.pointer hptr, hrep⟩
  | free ptr =>
    simp only [Pool.apply, specification]
    obtain ⟨hnull, hfree⟩ | ⟨i, hi, hnull, hat, hfree, hrep⟩ | ⟨hnull, hnone, hfree⟩ :=
      h.free_cases ptr
    · rw [if_pos hnull, hfree]
      exact ⟨rfl, h⟩
    · simp only [hnull, if_false, hat, hi, not_false_eq_true, dite_true, hfree, true_and]
      exact hrep
    · rw [if_neg hnull, hfree]
      cases hat : L.blockAt ptr with
      | none => exact ⟨rfl, h⟩
      | some i =>
        simp only [hnone i hat, not_true_eq_false, dite_false, true_and]
        exact h
  | clear =>
    simp only [Pool.apply, specification, clear, h.live, true_and]
    exact represents_new
  | reset => exact ⟨rfl, represents_new⟩
  | isAllocated ptr =>
    simp only [Pool.apply, specification, isAllocated, valid_getIndex_eq]
    refine ⟨?_, h⟩
    cases L.blockAt ptr with
    | none => rfl
    | some i => simp [h.used i]

/-- A pool implements the stack of its free blocks. -/
theorem implements (L : Layout) : Implements (object L) (specification L) Represents where
  initial := represents_new
  apply p a op h := by
    obtain ⟨hresult, hrep⟩ := h.apply op
    exact ⟨(p.apply op).2, by rw [← hresult]; rfl, hrep⟩

section Calls

/-- What each call does, in terms of the live blocks and their addresses. -/
structure Sound (p : Pool L) (free : List (Fin L.Capacity)) : Prop where
  -- the free list ends, and visits each index whose bit is clear exactly once
  chain : Linked (fun i => L.valid (p.mNext i)) (L.valid p.mFreeHead) free
  nodup : free.Nodup
  visits : ∀ i, i ∈ free ↔ p.isUsed i = false
  alloc_null : p.alloc.1 = none ↔
    (Finset.univ.filter fun i => p.isUsed i = true).card = L.Capacity
  alloc_block : ∀ ptr, p.alloc.1 = some ptr → ∃ i, free.head? = some i ∧ p.isUsed i = false ∧
    ptr.toNat = L.start.toNat + i * L.sizeofT ∧
    ∀ j, p.alloc.2.isUsed j = true ↔ j = i ∨ p.isUsed j = true
  free_true : ∀ ptr, (p.free ptr).1 = true ↔
    ptr = 0 ∨ ∃ i, p.isUsed i = true ∧ ptr.toNat = L.start.toNat + i * L.sizeofT
  -- the block freed is the only one, and the next to be handed out
  freed : ∀ ptr i, ptr ≠ 0 → p.isUsed i = true → ptr.toNat = L.start.toNat + i * L.sizeofT →
    (∀ j, (p.free ptr).2.isUsed j = true ↔ j ≠ i ∧ p.isUsed j = true) ∧
      (p.free ptr).2.alloc.1 = some ptr
  refused : ∀ ptr, ptr = 0 ∨ (p.free ptr).1 = false → (p.free ptr).2 = p
  cleaned : p.clear.1.Nodup ∧ ∀ ptr, ptr ∈ p.clear.1 ↔
    ∃ i, p.isUsed i = true ∧ ptr.toNat = L.start.toNat + i * L.sizeofT
  cleared : ∀ i, p.clear.2.isUsed i = false ∧ p.reset.isUsed i = false

theorem Represents.used_iff (h : Represents p a) (i : Fin L.Capacity) :
    p.isUsed i = true ↔ i ∉ a.free := by
  rw [h.used i, decide_eq_true_eq]

theorem toNat_eq_iff (ptr : UInt64) (i : Fin L.Capacity) :
    ptr.toNat = L.start.toNat + i * L.sizeofT ↔ L.block i = ptr := by
  rw [← toNat_block, UInt64.toNat_inj, eq_comm]

/-- What the representation says of the live blocks and their addresses. -/
theorem Represents.sound (h : Represents p a) : Sound p a.free where
  chain := h.chain
  nodup := a.nodup
  visits i := by rw [h.used i]; simp
  alloc_null := by
    have hcard : (Finset.univ.filter fun i => p.isUsed i = true).card = L.Capacity ↔
        ∀ i, p.isUsed i = true := by
      have hall := Finset.card_filter_eq_iff (s := Finset.univ) (p := fun i => p.isUsed i = true)
      simpa using hall
    rw [hcard, h.alloc.1]
    simp only [h.used_iff]
    rcases a with ⟨_ | ⟨i, rest⟩, hnodup⟩
    · simp [Allocator.alloc]
    · simp only [Allocator.alloc, Option.map_some, reduceCtorEq, false_iff, not_forall, not_not]
      exact ⟨i, List.mem_cons_self⟩
  alloc_block ptr hptr := by
    obtain ⟨halloc, hafter⟩ := h.alloc
    rw [hptr] at halloc
    have hused := h.used_iff
    have hused' := hafter.used_iff
    rcases a with ⟨_ | ⟨i, rest⟩, hnodup⟩
    · simp [Allocator.alloc] at halloc
    · obtain rfl := Option.some.inj halloc
      refine ⟨i, rfl, ?_, toNat_block i, fun j => ?_⟩
      · simpa using (hused i).not
      · rw [hused', hused]
        have hi : i ∉ rest := (List.nodup_cons.mp hnodup).1
        simp only [Allocator.alloc, List.mem_cons, not_or]
        by_cases hj : j = i
        · simp [hj, hi]
        · simp [hj]
  free_true ptr := by
    simp only [toNat_eq_iff, h.used_iff]
    obtain ⟨hnull, hfree⟩ | ⟨i, hi, hnull, hat, hfree, -⟩ | ⟨hnull, hnone, hfree⟩ :=
      h.free_cases ptr
    · rw [hfree]
      exact iff_of_true rfl (Or.inl hnull)
    · rw [hfree]
      refine iff_of_true rfl (Or.inr ⟨i, hi, ?_⟩)
      exact ((blockAt_eq_some ptr i).mp hat).2
    · rw [hfree]
      refine iff_of_false (by simp) ?_
      rintro (rfl | ⟨i, hi, hblock⟩)
      · exact hnull rfl
      · exact hi (hnone i ((blockAt_eq_some ptr i).mpr ⟨hnull, hblock⟩))
  freed ptr i hnull hused hptr := by
    have hat := (blockAt_eq_some ptr i).mpr ⟨hnull, (toNat_eq_iff ptr i).mp hptr⟩
    obtain ⟨hnull', -⟩ | ⟨j, hj, -, hat', -, hrep⟩ | ⟨-, hnone, -⟩ := h.free_cases ptr
    · exact absurd hnull' hnull
    · obtain rfl : i = j := Option.some.inj (hat.symm.trans hat')
      refine ⟨fun k => ?_, ?_⟩
      · rw [hrep.used_iff, h.used_iff]
        simp [Allocator.release]
      · rw [hrep.alloc.1]
        simp [Allocator.release, Allocator.alloc, ((blockAt_eq_some ptr i).mp hat).2]
    · exact absurd (hnone i hat) ((h.used_iff i).mp hused)
  refused ptr hptr := by
    obtain ⟨-, hfree⟩ | ⟨i, -, hnull, -, hfree, -⟩ | ⟨-, -, hfree⟩ := h.free_cases ptr
    · rw [hfree]
    · rcases hptr with hptr | hptr
      · exact absurd hptr hnull
      · simp [hfree] at hptr
    · rw [hfree]
  cleaned := by
    refine ⟨?_, fun ptr => ?_⟩
    · exact ((List.nodup_finRange L.Capacity).filter _).map block_injective
    · simp only [clear, List.mem_map, List.mem_filter, List.mem_finRange, true_and, toNat_eq_iff]
  cleared i := by simp [clear, reset, new, isUsed_eq_test, Bitmap.test_zero]

/-- Every sequence of calls is answered as by the stack of free blocks, and leaves a pool
whose next call does what it should. -/
theorem pool_allocates (L : Layout) (as : List Operation) :
    ∃ p, (object L).run (new L) as =
        some (((specification L).run (.full L.Capacity) as).1, p) ∧
      Sound p ((specification L).run (.full L.Capacity) as).2.free := by
  obtain ⟨p, hrun, hrep⟩ := (implements L).run as
  exact ⟨p, hrun, hrep.sound⟩

def twoWords : Layout where
  Capacity := 2
  sizeofT := 4
  start := 4096
  capacity_pos := by decide
  sizeofT_pos := by decide
  fits := by decide

example : ((object twoWords).run (new twoWords)
    [.alloc, .alloc, .alloc, .free 4098, .free 4096, .free 4096, .alloc]).map Prod.fst =
    some [.pointer (some 4096), .pointer (some 4100), .pointer none, .answer false, .answer true,
      .answer false, .pointer (some 4096)] := by decide

end Calls

end CWrapper.Pool
