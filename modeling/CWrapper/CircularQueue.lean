import CWrapper.Tape
import Mathlib.Algebra.BigOperators.Group.Finset.Piecewise
import Mathlib.Data.Fintype.Basic

/-!
CircularQueue.h. The elements are moved by their own assignment, which may leave something
behind in its source and destroy something in its target. The elements from mFront on are
those of a bounded queue.
-/
namespace CWrapper

/-- The move assignment of a type: the target and the source after it, and what it destroyed. -/
abbrev MoveAssign (T E : Type*) := T → T → T × T × List E

structure CircularQueue (T : Type*) (kCapacity : ℕ+) where
  mBuffer : Fin kCapacity → T
  mSize : ℕ
  mFront : Fin kCapacity
  mRear : Fin kCapacity

namespace CircularQueue

open Tape

variable {T E : Type*} {kCapacity : ℕ+}

def empty (t : T) : CircularQueue T kCapacity := ⟨fun _ => t, 0, cell kCapacity 0, cell kCapacity 0⟩

def isFull (q : CircularQueue T kCapacity) : Bool := q.mSize ≥ kCapacity

def isEmpty (q : CircularQueue T kCapacity) : Bool := q.mSize == 0

/-- The answer, the parameter when the function returns, and what was destroyed. -/
def put (move : MoveAssign T E) (q : CircularQueue T kCapacity) (t : T) :
    (Bool × T × List E) × CircularQueue T kCapacity :=
  if q.isFull then ((false, t, []), q)
  else
    let (slot, t, destroyed) := move (q.mBuffer q.mRear) t
    ((true, t, destroyed),
      { mBuffer := Function.update q.mBuffer q.mRear slot
        mSize := q.mSize + 1
        mFront := q.mFront
        mRear := cell kCapacity (q.mRear + 1) })

/-- The argument points to the target `t`, or is nullptr. -/
def get (move : MoveAssign T E) (q : CircularQueue T kCapacity) (t : Option T) :
    (Bool × Option T × List E) × CircularQueue T kCapacity :=
  if q.isEmpty then ((false, t, []), q)
  else
    let (t, slot, destroyed) := match t with
      | none => (none, q.mBuffer q.mFront, [])
      | some t =>
          let (t, slot, destroyed) := move t (q.mBuffer q.mFront)
          (some t, slot, destroyed)
    ((true, t, destroyed),
      { mBuffer := Function.update q.mBuffer q.mFront slot
        mSize := q.mSize - 1
        mFront := cell kCapacity (q.mFront + 1)
        mRear := q.mRear })

structure WellFormed (q : CircularQueue T kCapacity) : Prop where
  size_le : q.mSize ≤ kCapacity
  rear : q.mRear = cell kCapacity (q.mFront + q.mSize)

def contents (q : CircularQueue T kCapacity) : List T := Tape.contents q.mBuffer q.mFront q.mSize

variable {move : MoveAssign T E} {q : CircularQueue T kCapacity} {t : T}

theorem wellFormed_empty : (empty t : CircularQueue T kCapacity).WellFormed :=
  ⟨Nat.zero_le _, rfl⟩

@[simp] theorem length_contents : q.contents.length = q.mSize := Tape.length_contents

/-- A full queue refuses the element and is left as it was. -/
theorem put_full (h : q.isFull = true) : q.put move t = ((false, t, []), q) := if_pos h

theorem put_eq (h : q.isFull = false) :
    (q.put move t).1 = (true, (move (q.mBuffer q.mRear) t).2) := by
  simp [put, h]

/-- An accepted element comes last. -/
theorem put_contents (move : MoveAssign T E) (t : T) (hq : q.WellFormed)
    (h : q.isFull = false) :
    (q.put move t).2.contents = q.contents ++ [(move (q.mBuffer q.mRear) t).1] := by
  have hroom : q.mSize < kCapacity := by simpa [isFull] using h
  simp only [put, h, Bool.false_eq_true, if_false, contents, hq.rear]
  exact contents_append_one _ hroom

theorem WellFormed.put (hq : q.WellFormed) : (q.put move t).2.WellFormed := by
  by_cases h : q.isFull = true
  · rw [put_full h]
    exact hq
  · have hroom : q.mSize < kCapacity := by simpa [isFull] using h
    simp only [CircularQueue.put, h, Bool.false_eq_true, if_false]
    refine ⟨hroom, ?_⟩
    simp only [hq.rear, cell_cell_add, Nat.add_assoc]

/-- get() of an empty queue fails and takes nothing. -/
theorem get_empty {t : Option T} (h : q.isEmpty = true) : q.get move t = ((false, t, []), q) :=
  if_pos h

/-- The element at mFront is moved to the target. -/
theorem get_eq (h : q.isEmpty = false) : (q.get move (some t)).1 =
    (true, some (move t (q.mBuffer q.mFront)).1, (move t (q.mBuffer q.mFront)).2.2) := by
  simp [get, h]

theorem get_null (h : q.isEmpty = false) : (q.get move none).1 = (true, none, []) := by
  simp [get, h]

theorem contents_cons (h : q.isEmpty = false) :
    q.contents = q.mBuffer q.mFront :: q.contents.tail := by
  have hpos : q.mSize ≠ 0 := by simpa [isEmpty] using h
  obtain ⟨n, hn⟩ := Nat.exists_eq_succ_of_ne_zero hpos
  rw [contents, hn, contents_succ, cell_val, List.tail_cons]

/-- The element at mFront leaves the queue, and no other is touched. -/
theorem get_contents (move : MoveAssign T E) (t : Option T) (hq : q.WellFormed)
    (h : q.isEmpty = false) :
    (q.get move t).2.contents = q.contents.tail := by
  have hpos : q.mSize ≠ 0 := by simpa [isEmpty] using h
  obtain ⟨n, hn⟩ := Nat.exists_eq_succ_of_ne_zero hpos
  have hle := hq.size_le
  have hkept (x : T) : Tape.contents (Function.update q.mBuffer q.mFront x) (q.mFront + 1) n =
      Tape.contents q.mBuffer (q.mFront + 1) n := by
    have hupd := Tape.contents_update q.mBuffer (q.mFront + 1) q.mFront x fun i (hi : i < n) =>
      (cell_ne (by omega) (by omega)).symm
    rwa [cell_val] at hupd
  have htail : q.contents.tail = Tape.contents q.mBuffer (q.mFront + 1) n := by
    rw [contents, hn, contents_succ, List.tail_cons]
  rw [htail]
  simp only [get, h, Bool.false_eq_true, if_false, contents, contents_cell, hn]
  exact hkept _

theorem WellFormed.get {t : Option T} (hq : q.WellFormed) : (q.get move t).2.WellFormed := by
  by_cases h : q.isEmpty = true
  · rw [get_empty h]
    exact hq
  · have hpos : q.mSize ≠ 0 := by simpa [isEmpty] using h
    simp only [CircularQueue.get, h, Bool.false_eq_true, if_false]
    refine ⟨(Nat.sub_le ..).trans hq.size_le, ?_⟩
    have hsize : q.mFront + 1 + (q.mSize - 1) = q.mFront + q.mSize := by omega
    simp only [hq.rear, cell_cell_add, hsize]

section Cells

/-- The cells behind the last element have a property. -/
def Spare (p : T → Prop) (q : CircularQueue T kCapacity) : Prop :=
  ∀ k, q.mSize ≤ k → k < kCapacity → p (q.mBuffer (cell kCapacity (q.mFront + k)))

theorem spare_empty {p : T → Prop} (h : p t) :
    (empty t : CircularQueue T kCapacity).Spare p := fun _ _ _ => h

/-- The cell that the next element is moved to. -/
theorem Spare.rear {p : T → Prop} (h : q.Spare p) (hq : q.WellFormed) (hfull : q.isFull = false) :
    p (q.mBuffer q.mRear) := by
  have hroom : q.mSize < kCapacity := by simpa [isFull] using hfull
  rw [hq.rear]
  exact h q.mSize le_rfl hroom

theorem Spare.put {p : T → Prop} (h : q.Spare p) (hq : q.WellFormed) :
    (q.put move t).2.Spare p := by
  by_cases hfull : q.isFull = true
  · rwa [put_full hfull]
  simp only [CircularQueue.put, hfull, Bool.false_eq_true, if_false]
  intro k hk hlt
  have hne : cell kCapacity (q.mFront + k) ≠ cell kCapacity (q.mFront + q.mSize) :=
    (cell_ne (by simp only at hk; omega) (by omega)).symm
  simp only [hq.rear, Function.update_of_ne hne]
  exact h k (by simp only at hk; omega) hlt

/-- An element that was taken leaves a cell behind that has the property of its source. -/
theorem Spare.get {p : T → Prop} (h : q.Spare p)
    (hsource : p (move t (q.mBuffer q.mFront)).2.1) : (q.get move (some t)).2.Spare p := by
  by_cases hempty : q.isEmpty = true
  · rwa [get_empty hempty]
  have hpos : q.mSize ≠ 0 := by simpa [isEmpty] using hempty
  simp only [CircularQueue.get, hempty, Bool.false_eq_true, if_false]
  intro k hk hlt
  simp only at hk
  rw [cell_cell_add, Nat.add_assoc, Nat.add_comm 1 k]
  rcases Nat.lt_or_ge (k + 1) kCapacity with hin | hround
  · have hne : cell kCapacity (q.mFront + (k + 1)) ≠ q.mFront := by
      have hfront : cell kCapacity q.mFront ≠ cell kCapacity (q.mFront + (k + 1)) :=
        cell_ne (by omega) (by omega)
      rw [cell_val] at hfront
      exact hfront.symm
    show p (Function.update q.mBuffer q.mFront _ _)
    rw [Function.update_of_ne hne]
    exact h (k + 1) (by omega) hin
  · have heq : cell kCapacity (q.mFront + (k + 1)) = q.mFront := by
      have hsum : k + 1 = kCapacity := by omega
      rw [hsum, cell, Fin.ext_iff]
      simp only [Nat.add_mod_right, Nat.mod_eq_of_lt q.mFront.isLt]
    show p (Function.update q.mBuffer q.mFront _ _)
    rw [heq, Function.update_self]
    exact hsource

variable {M : Type*} [AddCommMonoid M] {m : T → M}

/-- What all the cells hold together. -/
def stock (m : T → M) (q : CircularQueue T kCapacity) : M := ∑ i, m (q.mBuffer i)

theorem stock_update {buf : Fin kCapacity → T} (i : Fin kCapacity) (x : T) :
    (∑ j, m (Function.update buf i x j)) + m (buf i) = (∑ j, m (buf j)) + m x := by
  have hupd : (fun j => m (Function.update buf i x j)) =
      Function.update (fun j => m (buf j)) i (m x) := by
    funext j
    by_cases hj : j = i
    · simp [hj]
    · simp [hj]
  rw [hupd, Finset.sum_update_of_mem (Finset.mem_univ i),
    Finset.sum_eq_add_sum_sdiff_singleton_of_mem (Finset.mem_univ i) fun j => m (buf j)]
  ac_rfl

/-- A put adds the element that it moves, in the place of what the cell at mRear held. -/
theorem put_stock (m : T → M) (move : MoveAssign T E) (t : T) (h : q.isFull = false) :
    (q.put move t).2.stock m + m (q.mBuffer q.mRear) =
      q.stock m + m (move (q.mBuffer q.mRear) t).1 := by
  simp only [put, h, Bool.false_eq_true, if_false]
  exact stock_update ..

/-- A get leaves in the cell at mFront what the move assignment leaves there. -/
theorem get_stock (m : T → M) (move : MoveAssign T E) (t : T) (h : q.isEmpty = false) :
    (q.get move (some t)).2.stock m + m (q.mBuffer q.mFront) =
      q.stock m + m (move t (q.mBuffer q.mFront)).2.1 := by
  simp only [get, h, Bool.false_eq_true, if_false]
  exact stock_update ..

end Cells

end CircularQueue

end CWrapper
