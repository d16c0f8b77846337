import Mathlib.Data.List.GetD
import Mathlib.Data.Nat.Digits.Lemmas

/-!
Numbers and bytes written in hexadecimal, and read back.
-/
namespace CWrapper.HexText

def digitChars : List Char :=
  ['0', '1', '2', '3', '4', '5', '6', '7', '8', '9', 'a', 'b', 'c', 'd', 'e', 'f']

def digitChar (d : ℕ) : Char := digitChars.getD d '0'

def digitValue (c : Char) : Option ℕ := digitChars.idxOf? c

def hex (width n : ℕ) : List Char :=
  ((Nat.digits 16 n).reverse.leftpad width 0).map digitChar

def readByte (high low : Char) : Option UInt8 := do
  let x ← digitValue high
  let y ← digitValue low
  return UInt8.ofNat (16 * x + y)

theorem digitValue_digitChar {d : ℕ} (h : d < 16) : digitValue (digitChar d) = some d := by
  interval_cases d <;> decide

theorem digitChar_ne_space (d : ℕ) : digitChar d ≠ ' ' := by
  have hall : ∀ c ∈ digitChars, c ≠ ' ' := by simp [digitChars]
  unfold digitChar
  rcases Nat.lt_or_ge d digitChars.length with hlt | hge
  · rw [List.getD_eq_getElem _ _ hlt]
    exact hall _ (List.getElem_mem hlt)
  · rw [List.getD_eq_default _ _ hge]
    decide

theorem not_mem_hex (width n : ℕ) : ' ' ∉ hex width n := by
  intro h
  obtain ⟨d, -, hd⟩ := List.mem_map.mp h
  exact digitChar_ne_space d hd

/-- A number below 16 ^ k takes k digits at most. -/
theorem length_hex_le {width n k : ℕ} (hwidth : width ≤ k) (hn : n < 16 ^ k) :
    (hex width n).length ≤ k := by
  have hlength : (Nat.digits 16 n).length ≤ k :=
    (Nat.digits_length_le_iff (by decide) n).mpr hn
  simp only [hex, List.length_map, List.leftpad, List.length_append, List.length_replicate,
    List.length_reverse]
  omega

theorem hex_byte (b : UInt8) :
    hex 2 b.toNat = [digitChar (b.toNat / 16), digitChar (b.toNat % 16)] := by
  have hb := b.toNat_lt
  generalize b.toNat = n at hb ⊢
  rcases Nat.eq_zero_or_pos n with rfl | hpos
  · decide
  · rcases Nat.lt_or_ge n 16 with hlt | hge
    · rw [hex, Nat.digits_of_lt 16 n (by omega) hlt, Nat.div_eq_of_lt hlt, Nat.mod_eq_of_lt hlt]
      rfl
    · rw [hex, Nat.digits_def' (by decide) hpos,
        Nat.digits_of_lt 16 (n / 16) (by omega) (by omega)]
      rfl

/-- What is written for a byte reads as that byte. -/
theorem readByte_hex (b : UInt8) :
    readByte (digitChar (b.toNat / 16)) (digitChar (b.toNat % 16)) = some b := by
  have hb := b.toNat_lt
  have hvalue : 16 * (b.toNat / 16) + b.toNat % 16 = b.toNat := Nat.div_add_mod b.toNat 16
  rw [readByte, digitValue_digitChar (by omega), digitValue_digitChar (by omega)]
  simp only [Option.bind_eq_bind, Option.bind_some, Option.pure_def, hvalue]
  rw [UInt8.ofNat_toNat]

theorem readByte_space (c : Char) : readByte ' ' c = none := by
  have hnone : digitValue ' ' = none := by decide
  rw [readByte, hnone]
  rfl

end CWrapper.HexText
