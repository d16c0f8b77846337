import Mathlib.Algebra.Group.Int.Defs
import Mathlib.Algebra.Group.Nat.Defs
import Mathlib.Data.Nat.Digits.Lemmas
import Mathlib.Data.Nat.Notation
import Mathlib.Logic.Function.Basic

/-!
Words of a fixed width: the bits of several words as one set, numbers as bytes in either byte order,
and words as signed numbers in two's complement.
-/
namespace CWrapper.Bitmap

variable {κ : Type*} [DecidableEq κ] {w : ℕ}

def mask (w b : ℕ) : BitVec w := 1#w <<< b

def test (m : κ → BitVec w) (k : κ) (b : ℕ) : Bool := m k &&& mask w b != 0#w

def insert (m : κ → BitVec w) (k : κ) (b : ℕ) : κ → BitVec w :=
  Function.update m k (m k ||| mask w b)

def erase (m : κ → BitVec w) (k : κ) (b : ℕ) : κ → BitVec w :=
  Function.update m k (m k &&& ~~~mask w b)

variable {m : κ → BitVec w} {k l : κ} {b c : ℕ}

theorem getLsbD_mask (hb : b < w) : (mask w b).getLsbD c = decide (c = b) := by
  unfold mask
  rw [BitVec.getLsbD_shiftLeft, BitVec.getLsbD_one]
  by_cases hc : c < w
  · rcases Nat.lt_trichotomy c b with h | rfl | h
    · simp [h, Nat.ne_of_lt h]
    · simp [hb, Nat.zero_lt_of_lt hb]
    · have hsub : c - b ≠ 0 := by omega
      simp [hsub, Nat.ne_of_gt h]
  · have hne : c ≠ b := by omega
    simp [hc, hne]

omit [DecidableEq κ] in
theorem test_eq (hb : b < w) : test m k b = (m k).getLsbD b := by
  unfold test
  cases hbit : (m k).getLsbD b with
  | true =>
    rw [bne_iff_ne]
    intro hzero
    have hb' := congrArg (BitVec.getLsbD · b) hzero
    simp [getLsbD_mask hb, hbit] at hb'
  | false =>
    rw [bne_eq_false_iff_eq]
    refine BitVec.eq_of_getLsbD_eq fun c hc => ?_
    rw [BitVec.getLsbD_and, getLsbD_mask hb]
    by_cases hcb : c = b
    · simp [hcb, hbit]
    · simp [hcb]

theorem test_insert (hb : b < w) (hc : c < w) :
    test (insert m k b) l c = (decide (l = k ∧ c = b) || test m l c) := by
  rw [test_eq hc, test_eq hc]
  unfold insert
  by_cases hl : l = k
  · subst hl
    simp [getLsbD_mask hb, Bool.or_comm]
  · simp [hl]

theorem test_erase (hb : b < w) (hc : c < w) :
    test (erase m k b) l c = (!decide (l = k ∧ c = b) && test m l c) := by
  rw [test_eq hc, test_eq hc]
  unfold erase
  by_cases hl : l = k
  · subst hl
    rw [Function.update_self, BitVec.getLsbD_and, BitVec.getLsbD_not, getLsbD_mask hb]
    simp [hc, Bool.and_comm]
  · simp [hl]

omit [DecidableEq κ] in
theorem test_zero : test (fun _ => 0#w : κ → BitVec w) k b = false := by
  simp [test]

end CWrapper.Bitmap

namespace CWrapper.ByteOrder

/-- The number that bytes make up, the least significant one first. -/
def value (bytes : List UInt8) : ℕ := Nat.ofDigits 256 (bytes.map UInt8.toNat)

/-- The `k` low bytes of a number, the least significant one first. -/
def lowBytes : ℕ → ℕ → List UInt8
  | 0, _ => []
  | k + 1, v => UInt8.ofNat v :: lowBytes k (v / 256)

def decode (bigEndian : Bool) (bytes : List UInt8) : ℕ :=
  value (if bigEndian then bytes.reverse else bytes)

def encode (bigEndian : Bool) (k v : ℕ) : List UInt8 :=
  if bigEndian then (lowBytes k v).reverse else lowBytes k v

@[simp] theorem value_nil : value [] = 0 := rfl

theorem value_cons (b : UInt8) (bytes : List UInt8) :
    value (b :: bytes) = b.toNat + 256 * value bytes := by
  simp [value, Nat.ofDigits_cons]

theorem value_concat (bytes : List UInt8) (b : UInt8) :
    value (bytes ++ [b]) = value bytes + 256 ^ bytes.length * b.toNat := by
  simp [value, Nat.ofDigits_append]

theorem value_lt (bytes : List UInt8) : value bytes < 256 ^ bytes.length := by
  have h := Nat.ofDigits_lt_base_pow_length (b := 256) (l := bytes.map UInt8.toNat) (by decide)
    fun x hx => by
      obtain ⟨b, -, rfl⟩ := List.mem_map.mp hx
      exact b.toNat_lt
  simpa [value] using h

@[simp] theorem length_lowBytes (k v : ℕ) : (lowBytes k v).length = k := by
  induction k generalizing v with
  | zero => rfl
  | succ k ih => simp [lowBytes, ih]

@[simp] theorem length_encode (bigEndian : Bool) (k v : ℕ) :
    (encode bigEndian k v).length = k := by
  cases bigEndian <;> simp [encode]

theorem value_lowBytes {k v : ℕ} (hv : v < 256 ^ k) : value (lowBytes k v) = v := by
  induction k generalizing v with
  | zero =>
    obtain rfl : v = 0 := by simpa using hv
    rfl
  | succ k ih =>
    have hdiv : v / 256 < 256 ^ k := Nat.div_lt_of_lt_mul (by rwa [Nat.pow_succ'] at hv)
    rw [lowBytes, value_cons, ih hdiv, UInt8.toNat_ofNat']
    omega

/-- Both sides have agreed on the order: the number comes back. -/
theorem decode_encode (bigEndian : Bool) {k v : ℕ} (hv : v < 256 ^ k) :
    decode bigEndian (encode bigEndian k v) = v := by
  cases bigEndian <;> simp [decode, encode, value_lowBytes hv]

theorem decode_lt (bigEndian : Bool) (bytes : List UInt8) :
    decode bigEndian bytes < 256 ^ bytes.length := by
  cases bigEndian
  · exact value_lt bytes
  · simpa [decode] using value_lt bytes.reverse

end CWrapper.ByteOrder

namespace CWrapper.SignedWords

variable {v w : ℕ}

/-- Below half of the range a word and its signed reading agree. -/
theorem toInt_ofNat_of_lt {n : ℕ} (h : 2 * n < 2 ^ w) : (BitVec.ofNat w n).toInt = n := by
  have hn : (BitVec.ofNat w n).toNat = n := by
    rw [BitVec.toNat_ofNat]
    exact Nat.mod_eq_of_lt (by omega)
  rw [BitVec.toInt_eq_toNat_of_lt (by omega), hn]

/-- A difference that the width can hold is not reduced. -/
theorem toInt_sub_of_fits {x y : BitVec w} (hlow : -(2 ^ w : ℤ) ≤ (x.toInt - y.toInt) * 2)
    (hhigh : (x.toInt - y.toInt) * 2 < (2 ^ w : ℤ)) : (x - y).toInt = x.toInt - y.toInt := by
  rw [BitVec.toInt_sub]
  apply Int.bmod_eq_of_le_mul_two
  · simpa using hlow
  · simpa using hhigh

/-- Sign extension loses nothing. -/
theorem signExtend_injective (h : v ≤ w) :
    Function.Injective (BitVec.signExtend w : BitVec v → BitVec w) := by
  intro x y hxy
  apply BitVec.eq_of_toInt_eq
  rw [← BitVec.toInt_signExtend_of_le (x := x) h, hxy, BitVec.toInt_signExtend_of_le h]

theorem signExtend_of_lt {x : BitVec v} (h : 2 * x.toNat < 2 ^ v) :
    x.signExtend w = BitVec.ofNat w x.toNat := by
  rw [BitVec.signExtend_eq_setWidth_of_msb_false (BitVec.msb_eq_false_iff_two_mul_lt.mpr h)]
  exact (BitVec.ofNat_toNat w x).symm

/-- Truncation of a number that the smaller width can hold. -/
theorem toNat_setWidth_of_fits {x : BitVec w} (hlow : 0 ≤ x.toInt) (hhigh : x.toInt < 2 ^ v) :
    ((x.setWidth v).toNat : ℤ) = x.toInt := by
  have hpos : x.toInt = x.toNat := by
    rw [BitVec.toInt_eq_toNat_cond] at hlow ⊢
    split at hlow
    · rename_i hsmall
      rw [if_pos hsmall]
    · have hlt := x.isLt
      have hcast : ((2 ^ w : ℕ) : ℤ) > x.toNat := by exact_mod_cast hlt
      omega
  have hlt : x.toNat < 2 ^ v := by
    rw [hpos] at hhigh
    exact_mod_cast hhigh
  rw [hpos, BitVec.toNat_setWidth, Nat.mod_eq_of_lt hlt]

end CWrapper.SignedWords
