import Mathlib.Algebra.Group.Nat.Defs
import Mathlib.Algebra.GroupWithZero.Nat
import Mathlib.Algebra.Order.Group.Nat
import Mathlib.Data.Nat.Notation

/-!
BitOps.h. An operand of a narrow type is promoted to int, and the result of a function is converted
back to T. A shift whose count is the number of bits of T or more has no result.
-/
namespace CWrapper.BitOps

inductive UnsignedType
  | uint8
  | uint16
  | uint32
  | uint64
  deriving DecidableEq, Repr

namespace UnsignedType

def bits : UnsignedType → ℕ
  | .uint8 => 8
  | .uint16 => 16
  | .uint32 => 32
  | .uint64 => 64

def promotedBits : UnsignedType → ℕ
  | .uint8 | .uint16 | .uint32 => 32
  | .uint64 => 64

def promotesToInt : UnsignedType → Bool
  | .uint8 | .uint16 => true
  | .uint32 | .uint64 => false

theorem bits_le (t : UnsignedType) : t.bits ≤ t.promotedBits := by
  cases t <;> decide

/-- All values of a narrow type are values of int. -/
theorem bits_lt {t : UnsignedType} (h : t.promotesToInt = true) : t.bits < t.promotedBits := by
  cases t with
  | uint8 | uint16 => decide
  | uint32 | uint64 => cases h

end UnsignedType

section Functions

variable {t : UnsignedType}

def promote (x : BitVec t.bits) : BitVec t.promotedBits := x.setWidth t.promotedBits

/-- static_cast<T> -/
def convert (x : BitVec t.promotedBits) : BitVec t.bits := x.setWidth t.bits

def shiftLeft (x : BitVec t.promotedBits) (count : BitVec 32) : Option (BitVec t.promotedBits) :=
  if count.toNat < t.bits then some (x <<< count.toNat) else none

/-- The shift of an int is an arithmetic one. -/
def shiftRight (x : BitVec t.promotedBits) (count : BitVec 32) : Option (BitVec t.promotedBits) :=
  if count.toNat < t.bits then
    some (if t.promotesToInt then x.sshiftRight count.toNat else x >>> count.toNat)
  else none

def lowBits (t : UnsignedType) (width : BitVec 32) : Option (BitVec t.bits) :=
  if t.bits ≤ width.toNat then some (convert (~~~promote 0#t.bits))
  else (shiftLeft (promote 1#t.bits) width).map fun x => convert (x - 1#t.promotedBits)

def mask (width : BitVec 32) (t : UnsignedType) : Option (BitVec t.bits) := lowBits t width

def mask_dynamic (t : UnsignedType) (width : BitVec 32) : Option (BitVec t.bits) := lowBits t width

/-- The offset is checked by a static_assert. -/
def extract (offset width : BitVec 32) (_ : offset.toNat < t.bits) (data : BitVec t.bits) :
    Option (BitVec t.bits) := do
  let shifted ← shiftRight (promote data) offset
  let m ← mask width t
  return convert (shifted &&& promote m)

def extract_dynamic (data : BitVec t.bits) (offset width : BitVec 32) : Option (BitVec t.bits) :=
  if t.bits ≤ offset.toNat then some 0
  else do
    let shifted ← shiftRight (promote data) offset
    let m ← mask_dynamic t width
    return convert (shifted &&& promote m)

/-- The fields of the given widths, from the offset on, put back in their places and added up. -/
def sumFields (data : BitVec t.bits) : BitVec 32 → List (BitVec 32) → Option ℕ
  | _, [] => some 0
  | offset, width :: widths => do
      let field ← extract_dynamic data offset width
      let rest ← sumFields data (offset + width) widths
      return field.toNat * 2 ^ offset.toNat + rest

end Functions

section Values

variable {t : UnsignedType}

theorem toNat_promote (x : BitVec t.bits) : (promote x).toNat = x.toNat := by
  have hlt : x.toNat < 2 ^ t.promotedBits :=
    x.isLt.trans_le (Nat.pow_le_pow_right (by decide) t.bits_le)
  rw [promote, BitVec.toNat_setWidth, Nat.mod_eq_of_lt hlt]

/-- A promoted operand is not negative, so that the arithmetic shift of it is the logical one. -/
theorem msb_promote (h : t.promotesToInt = true) (x : BitVec t.bits) : (promote x).msb = false := by
  rw [BitVec.msb_eq_false_iff_two_mul_lt, toNat_promote]
  have hlt := x.isLt
  have hle : 2 ^ (t.bits + 1) ≤ 2 ^ t.promotedBits :=
    Nat.pow_le_pow_right (by decide) (UnsignedType.bits_lt h)
  rw [Nat.pow_succ] at hle
  omega

theorem shiftRight_promote (x : BitVec t.bits) {count : BitVec 32} (h : count.toNat < t.bits) :
    shiftRight (promote x) count = some (promote x >>> count.toNat) := by
  rw [shiftRight, if_pos h]
  split
  · rename_i hint
    rw [BitVec.sshiftRight_eq_of_msb_false (msb_promote hint x)]
  · rfl

/-- All bits of T are set in ~0, whatever type it was computed in. -/
theorem convert_not : convert (~~~promote 0#t.bits) = BitVec.allOnes t.bits := by
  ext i hi
  have hpromoted : i < t.promotedBits := hi.trans_le t.bits_le
  simp [convert, promote, hpromoted]

/-- The mask of a width has that many low bits set, or all bits of T. -/
theorem lowBits_toNat (t : UnsignedType) (width : BitVec 32) :
    ∃ m, lowBits t width = some m ∧ m.toNat = 2 ^ min width.toNat t.bits - 1 := by
  unfold lowBits
  split
  · rename_i hwide
    refine ⟨_, rfl, ?_⟩
    rw [convert_not, BitVec.toNat_allOnes, min_eq_right hwide]
  · rename_i hnarrow
    rw [not_le] at hnarrow
    rw [shiftLeft, if_pos hnarrow]
    refine ⟨convert (promote 1#t.bits <<< width.toNat - 1#t.promotedBits), rfl, ?_⟩
    have hbits : 2 ^ width.toNat < 2 ^ t.bits := Nat.pow_lt_pow_right (by decide) hnarrow
    have hpromoted : 2 ^ t.bits ≤ 2 ^ t.promotedBits := Nat.pow_le_pow_right (by decide) t.bits_le
    have hpos : 0 < 2 ^ width.toNat := Nat.two_pow_pos _
    have hone : (promote 1#t.bits).toNat = 1 := by
      rw [toNat_promote, BitVec.toNat_ofNat, Nat.mod_eq_of_lt (by omega)]
    have hshift : (promote 1#t.bits <<< width.toNat).toNat = 2 ^ width.toNat := by
      rw [BitVec.toNat_shiftLeft, hone, Nat.one_shiftLeft, Nat.mod_eq_of_lt (by omega)]
    have hunit : (1#t.promotedBits).toNat = 1 := by
      rw [BitVec.toNat_ofNat, Nat.mod_eq_of_lt (by omega)]
    have hsub : (promote 1#t.bits <<< width.toNat - 1#t.promotedBits).toNat =
        2 ^ width.toNat - 1 := by
      rw [BitVec.toNat_sub_of_le, hshift, hunit]
      rw [BitVec.le_def, hshift, hunit]
      exact hpos
    rw [convert, BitVec.toNat_setWidth, hsub, min_eq_left hnarrow.le, Nat.mod_eq_of_lt (by omega)]

/-- The bits of a field: those of the operand from the offset on, cut off at the width. -/
theorem field_toNat (data m : BitVec t.bits) {offset width : ℕ}
    (hm : m.toNat = 2 ^ min width t.bits - 1) :
    (convert (promote data >>> offset &&& promote m)).toNat =
      data.toNat / 2 ^ offset % 2 ^ width := by
  have hdata : data.toNat / 2 ^ offset < 2 ^ t.bits :=
    (Nat.div_le_self ..).trans_lt data.isLt
  have hand : (promote data >>> offset &&& promote m).toNat =
      data.toNat / 2 ^ offset % 2 ^ width := by
    rw [BitVec.toNat_and, BitVec.toNat_ushiftRight, toNat_promote, toNat_promote, hm,
      Nat.and_two_pow_sub_one_eq_mod, Nat.shiftRight_eq_div_pow]
    rcases le_total width t.bits with hle | hle
    · rw [min_eq_left hle]
    · rw [min_eq_right hle, Nat.mod_eq_of_lt hdata, Nat.mod_eq_of_lt]
      exact hdata.trans_le (Nat.pow_le_pow_right (by decide) hle)
  rw [convert, BitVec.toNat_setWidth, hand]
  exact Nat.mod_eq_of_lt ((Nat.mod_le ..).trans_lt hdata)

theorem extract_toNat (data : BitVec t.bits) (offset width : BitVec 32)
    (h : offset.toNat < t.bits) : ∃ field, extract offset width h data = some field ∧
      field.toNat = data.toNat / 2 ^ offset.toNat % 2 ^ width.toNat := by
  obtain ⟨m, hm, hvalue⟩ := lowBits_toNat t width
  refine ⟨_, ?_, field_toNat data m hvalue⟩
  simp only [extract, mask, shiftRight_promote data h, hm]
  rfl

theorem extract_eq_dynamic (data : BitVec t.bits) (offset width : BitVec 32)
    (h : offset.toNat < t.bits) :
    extract offset width h data = extract_dynamic data offset width := by
  rw [extract_dynamic, if_neg (not_le.mpr h)]
  rfl

theorem extract_dynamic_toNat (data : BitVec t.bits) (offset width : BitVec 32) :
    ∃ field, extract_dynamic data offset width = some field ∧
      field.toNat = data.toNat / 2 ^ offset.toNat % 2 ^ width.toNat := by
  by_cases h : offset.toNat < t.bits
  · rw [← extract_eq_dynamic data offset width h]
    exact extract_toNat data offset width h
  · rw [not_lt] at h
    rw [extract_dynamic, if_pos h]
    refine ⟨0, rfl, ?_⟩
    have hzero : data.toNat / 2 ^ offset.toNat = 0 :=
      Nat.div_eq_of_lt (data.isLt.trans_le (Nat.pow_le_pow_right (by decide) h))
    rw [hzero]
    rfl

end Values

section Tiling

variable {t : UnsignedType}

def total (widths : List (BitVec 32)) : ℕ := (widths.map BitVec.toNat).sum

/-- The fields from an offset on make up the bits from there to their end. -/
theorem sumFields_eq (data : BitVec t.bits) (widths : List (BitVec 32)) (offset : BitVec 32)
    (hfits : offset.toNat + total widths.dropLast < 2 ^ 32) :
    sumFields data offset widths =
      some (data.toNat / 2 ^ offset.toNat % 2 ^ total widths * 2 ^ offset.toNat) := by
  induction widths generalizing offset with
  | nil => simp [sumFields, total, Nat.mod_one]
  | cons width widths ih =>
    obtain ⟨field, hfield, hvalue⟩ := extract_dynamic_toNat data offset width
    have htotal : total (width :: widths) = width.toNat + total widths := by simp [total]
    cases widths with
    | nil =>
      simp [sumFields, hfield, hvalue, total]
    | cons next rest =>
      rw [List.dropLast_cons_cons] at hfits
      have hnext : total (width :: (next :: rest).dropLast) =
          width.toNat + total (next :: rest).dropLast := by simp [total]
      rw [hnext] at hfits
      have hoffset : (offset + width).toNat = offset.toNat + width.toNat := by
        rw [BitVec.toNat_add, Nat.mod_eq_of_lt (by omega)]
      have hrest := ih (offset + width) (by rw [hoffset]; omega)
      rw [hoffset, Nat.pow_add] at hrest
      rw [sumFields, hfield, hrest, htotal, Nat.pow_add (2 : ℕ) width.toNat, Nat.mod_mul]
      simp only [Option.bind_eq_bind, Option.bind_some, Option.pure_def, Option.some.injEq]
      rw [hvalue, Nat.add_mul, ← Nat.div_div_eq_div_mul]
      congr 1
      rw [Nat.mul_comm (2 ^ offset.toNat), ← Nat.mul_assoc, Nat.mul_comm (_ % _)]

/-- Fields tile the word: put back in their places they add up to the low bits of the operand.
extract and extract_dynamic agree, and no shift goes over all bits of T. -/
theorem fields_tile (data : BitVec t.bits) (widths : List (BitVec 32))
    (hfits : total widths.dropLast < 2 ^ 32) :
    sumFields data 0 widths = some (data.toNat % 2 ^ total widths) ∧
    (∀ offset width h, extract offset width h data = extract_dynamic data offset width) ∧
    (∀ offset width, (extract_dynamic data offset width).isSome = true) ∧
    ∀ width, (mask width t).isSome = true ∧ (mask_dynamic t width).isSome = true := by
  refine ⟨?_, extract_eq_dynamic data, fun offset width => ?_, fun width => ?_⟩
  · rw [sumFields_eq data widths 0 (by simpa using hfits)]
    simp
  · obtain ⟨field, hfield, -⟩ := extract_dynamic_toNat data offset width
    rw [hfield]
    rfl
  · obtain ⟨m, hm, -⟩ := lowBits_toNat t width
    exact ⟨Option.isSome_iff_exists.mpr ⟨m, hm⟩, Option.isSome_iff_exists.mpr ⟨m, hm⟩⟩

theorem fields_tile_byte :
    sumFields (t := .uint8) 0xAB#8 0 [4, 0, 3, 40] = some (0xAB#8).toNat :=
  (fields_tile (t := .uint8) 0xAB#8 [4, 0, 3, 40] (by decide)).1

end Tiling

end CWrapper.BitOps
