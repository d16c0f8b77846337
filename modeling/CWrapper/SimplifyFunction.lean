import CWrapper.Memory
import CWrapper.StringSearch

/-!
Log.cpp: simplify_function. The name is looked for in func and copied to buf. Where no space comes
before the parenthesis, begin is set to buf and not to func, so that buf is copied onto itself.
-/
namespace CWrapper.SimplifyFunction

open StringSearch

def MAX_FUNCTION_SIZE : ℕ := 128

def space : UInt8 := 32
def parenthesis : UInt8 := 40
def dots : List UInt8 := [46, 46, 46]

abbrev Buffer := { buf : List UInt8 // buf.length = MAX_FUNCTION_SIZE }

/-- A string and a buffer, each at its place in the memory. -/
structure Arguments where
  chars : List UInt8
  noNul : 0 ∉ chars
  func : ℕ
  buf : ℕ
  funcFits : func + chars.length < 2 ^ 64
  bufFits : buf + MAX_FUNCTION_SIZE ≤ 2 ^ 64
  apart : func + chars.length < buf ∨ buf + MAX_FUNCTION_SIZE ≤ func

inductive Pointer
  | func (i : ℕ)
  | buf (i : ℕ)

/-- A pointer to a constant, or buf. -/
inductive Returned
  | empty
  | buf
  deriving DecidableEq, Repr

def Pointer.add : Pointer → ℕ → Pointer
  | .func i, k => .func (i + k)
  | .buf i, k => .buf (i + k)

def Arguments.address (a : Arguments) : Pointer → ℕ
  | .func i => a.func + i
  | .buf i => a.buf + i

def Arguments.distance (a : Arguments) (last first : Pointer) : ℕ :=
  (a.address last + 2 ^ 64 - a.address first) % 2 ^ 64

def Arguments.load (a : Arguments) (buf : List UInt8) : Pointer → Option UInt8
  | .func i => (a.chars ++ [0])[i]?
  | .buf i => buf[i]?

/-- strncpy(buf + i, src, n): the rest is filled up once a NUL is copied. -/
def strncpy (a : Arguments) (src : Pointer) : ℕ → ℕ → List UInt8 → Option (List UInt8)
  | 0, _, buf => some buf
  | n + 1, i, buf => do
      let c ← a.load buf src
      let buf ← Memory.overwrite buf i [c]
      if c = 0 then Memory.overwrite buf (i + 1) (List.replicate n 0)
      else strncpy a (src.add 1) n (i + 1) buf

/-- The loop over the spaces before endPos. -/
def search (chars : List UInt8) (endPos p : ℕ) (found : Option ℕ) : Option ℕ :=
  match h : strchr chars p space with
  | none => found
  | some q => if q < endPos then search chars endPos (q + 1) (some q) else found
  termination_by chars.length - p
  decreasing_by
    obtain ⟨hle, hat, -⟩ := strchr_some h
    have hlt := (List.getElem?_eq_some_iff.mp hat).1
    omega

def endOf (chars : List UInt8) : ℕ := (strrchr chars parenthesis).getD chars.length

def beginOf (chars : List UInt8) : Pointer :=
  match search chars (endOf chars) 0 none with
  | some q => .func (q + 1)
  | none => .buf 0

def simplify_function (buf : Buffer) : Option Arguments → Option (Returned × List UInt8)
  | none => some (.empty, buf.val)
  | some a => do
      let first := beginOf a.chars
      let len := a.distance (.func (endOf a.chars)) first
      if MAX_FUNCTION_SIZE ≤ len then
        let copy_len := MAX_FUNCTION_SIZE - 4
        let buf ← strncpy a first copy_len 0 buf.val
        let buf ← Memory.overwrite buf copy_len (dots ++ [0])
        return (.buf, buf)
      else
        let buf ← strncpy a first len 0 buf.val
        let buf ← Memory.overwrite buf len [0]
        return (.buf, buf)

def declarator (chars : List UInt8) : List UInt8 := beforeLast parenthesis chars

def bareName (chars : List UInt8) : List UInt8 := afterLast space (declarator chars)

/-- The name as it is to be shown: cut off where it is too long for the buffer. -/
def shown (chars : List UInt8) : List UInt8 :=
  if (bareName chars).length < MAX_FUNCTION_SIZE then bareName chars
  else (bareName chars).take (MAX_FUNCTION_SIZE - 4) ++ dots

def Holds (result : Option (Returned × List UInt8)) (chars : List UInt8) : Prop :=
  ∃ buf, result = some (.buf, buf) ∧ chars ++ [0] <+: buf

section Search

variable {chars : List UInt8}

theorem endOf_eq (chars : List UInt8) : endOf chars = (declarator chars).length := by
  by_cases h : parenthesis ∈ chars
  · rw [endOf, strrchr_eq_some h, Option.getD_some, declarator]
  · rw [endOf, strrchr_eq_none h, Option.getD_none, declarator, beforeLast_of_not_mem h]

theorem take_endOf (chars : List UInt8) : chars.take (endOf chars) = declarator chars := by
  rw [endOf_eq]
  exact take_beforeLast chars

/-- The loop carries on with the last space before p. -/
theorem search_eq (chars : List UInt8) {endPos p : ℕ} (hp : p ≤ endPos) :
    search chars endPos p (strrchr (chars.take p) space) =
      strrchr (chars.take endPos) space := by
  -- nothing is left to find when no space lies between p and endPos
  have hdone : (∀ k, p ≤ k → k < endPos → chars[k]? ≠ some space) →
      strrchr (chars.take p) space = strrchr (chars.take endPos) space := by
    intro hnone
    have hsplit : chars.take endPos = chars.take p ++ (chars.take endPos).drop p := by
      conv_lhs => rw [← List.take_append_drop p (chars.take endPos), List.take_take, min_eq_left hp]
    rw [hsplit, strrchr_append]
    intro hmem
    obtain ⟨k, hk⟩ := List.getElem?_of_mem hmem
    rw [List.getElem?_drop] at hk
    obtain ⟨hlt, -⟩ := List.getElem?_eq_some_iff.mp hk
    rw [List.length_take] at hlt
    rw [List.getElem?_take_of_lt (by omega)] at hk
    exact hnone (p + k) (by omega) (by omega) hk
  rw [search]
  split
  · rename_i hnone
    exact hdone fun k hk _ => strchr_none hnone hk
  · rename_i q hsome
    obtain ⟨hle, hat, hbefore⟩ := strchr_some hsome
    by_cases hq : q < endPos
    · rw [if_pos hq]
      have hnext : some q = strrchr (chars.take (q + 1)) space := by
        have hlt := (List.getElem?_eq_some_iff.mp hat).1
        rw [List.take_add_one, hat, Option.toList_some, strrchr_append_singleton, if_pos rfl,
          List.length_take, min_eq_left hlt.le]
      rw [hnext]
      exact search_eq chars (by omega)
    · rw [if_neg hq]
      exact hdone fun k hk hlt => hbefore k hk (by omega)
  termination_by chars.length - p
  decreasing_by
    have hlt := (List.getElem?_eq_some_iff.mp hat).1
    omega

theorem beginOf_of_mem (h : space ∈ declarator chars) :
    beginOf chars = .func ((beforeLast space (declarator chars)).length + 1) := by
  have hsearch := search_eq chars (Nat.zero_le (endOf chars))
  rw [List.take_zero, take_endOf, strrchr_eq_some h] at hsearch
  have hnone : strrchr ([] : List UInt8) space = none := rfl
  rw [hnone] at hsearch
  rw [beginOf, hsearch]

theorem beginOf_of_not_mem (h : space ∉ declarator chars) : beginOf chars = .buf 0 := by
  have hsearch := search_eq chars (Nat.zero_le (endOf chars))
  rw [List.take_zero, take_endOf, strrchr_eq_none h] at hsearch
  have hnone : strrchr ([] : List UInt8) space = none := rfl
  rw [hnone] at hsearch
  rw [beginOf, hsearch]

end Search

end CWrapper.SimplifyFunction
