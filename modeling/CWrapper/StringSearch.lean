import Mathlib.Data.List.DropRight
import Mathlib.Data.Nat.Notation

/-!
Searching a string from either end, as strchr and strrchr do it, and what lies on the two sides
of the last occurrence of a character.
-/
namespace CWrapper.StringSearch

variable {α : Type*} [DecidableEq α] {c : α} {s t : List α}

/-- The first occurrence from a position on. -/
def strchr (s : List α) (p : ℕ) (c : α) : Option ℕ :=
  ((s.drop p).findIdx? fun x => decide (x = c)).map (p + ·)

def strrchr (s : List α) (c : α) : Option ℕ :=
  match s with
  | [] => none
  | x :: xs =>
    match strrchr xs c with
    | some i => some (i + 1)
    | none => if x = c then some 0 else none

/-- All of the string where there is no occurrence. -/
def beforeLast (c : α) (s : List α) : List α :=
  if c ∈ s then (s.rdropWhile (· ≠ c)).dropLast else s

/-- All of the string where there is no occurrence. -/
def afterLast (c : α) (s : List α) : List α := s.rtakeWhile (· ≠ c)

theorem strchr_some {p q : ℕ} (h : strchr s p c = some q) :
    p ≤ q ∧ s[q]? = some c ∧ ∀ k, p ≤ k → k < q → s[k]? ≠ some c := by
  obtain ⟨i, hi, rfl⟩ := Option.map_eq_some_iff.mp h
  obtain ⟨hlt, hfound, hbefore⟩ := List.findIdx?_eq_some_iff_getElem.mp hi
  refine ⟨Nat.le_add_right p i, ?_, ?_⟩
  · rw [← List.getElem?_drop, List.getElem?_eq_getElem hlt]
    simpa using hfound
  · intro k hk hki heq
    obtain ⟨j, rfl⟩ := Nat.exists_eq_add_of_le hk
    have hj : j < i := by omega
    rw [← List.getElem?_drop, List.getElem?_eq_getElem (by omega)] at heq
    have hne := hbefore j hj
    simp [Option.some.inj heq] at hne

theorem strchr_none {p : ℕ} (h : strchr s p c = none) {k : ℕ} (hk : p ≤ k) :
    s[k]? ≠ some c := by
  intro heq
  have hnone : (s.drop p).findIdx? (fun x => decide (x = c)) = none := Option.map_eq_none_iff.mp h
  rw [List.findIdx?_eq_none_iff] at hnone
  have hmem : c ∈ s.drop p := by
    apply List.mem_of_getElem? (i := k - p)
    rw [List.getElem?_drop, Nat.add_sub_cancel' hk]
    exact heq
  simpa using hnone c hmem

theorem strrchr_append_singleton (s : List α) (x : α) :
    strrchr (s ++ [x]) c = if x = c then some s.length else strrchr s c := by
  induction s with
  | nil => simp [strrchr]
  | cons y s ih =>
    rw [List.cons_append, strrchr, ih]
    by_cases hx : x = c
    · simp [hx]
    · simp only [if_neg hx, strrchr]

theorem strrchr_append (h : c ∉ t) : strrchr (s ++ t) c = strrchr s c := by
  induction t generalizing s with
  | nil => rw [List.append_nil]
  | cons x t ih =>
    rw [List.mem_cons, not_or] at h
    rw [List.append_cons, ih h.2, strrchr_append_singleton, if_neg (Ne.symm h.1)]

theorem strrchr_eq_none (h : c ∉ s) : strrchr s c = none :=
  strrchr_append (s := []) h

theorem not_mem_afterLast : c ∉ afterLast c s := by
  intro h
  simpa using List.mem_rtakeWhile_imp h

theorem beforeLast_of_not_mem (h : c ∉ s) : beforeLast c s = s := if_neg h

/-- The last occurrence lies between the two sides. -/
theorem eq_append_of_mem (h : c ∈ s) : s = beforeLast c s ++ c :: afterLast c s := by
  rw [beforeLast, if_pos h, afterLast]
  induction s using List.reverseRecOn with
  | nil => cases h
  | append_singleton s x ih =>
    by_cases hx : x = c
    · subst hx
      rw [List.rdropWhile_concat_neg _ _ _ (by simp), List.rtakeWhile_concat_neg _ _ _ (by simp)]
      simp
    · have hmem : c ∈ s := by
        rcases List.mem_append.mp h with hs | hs
        · exact hs
        · exact absurd (List.mem_singleton.mp hs).symm hx
      rw [List.rdropWhile_concat_pos _ _ _ (by simpa using hx),
        List.rtakeWhile_concat_pos _ _ _ (by simpa using hx)]
      conv_lhs => rw [ih hmem]
      simp

theorem strrchr_eq_some (h : c ∈ s) : strrchr s c = some (beforeLast c s).length := by
  conv_lhs => rw [eq_append_of_mem h]
  rw [List.append_cons, strrchr_append not_mem_afterLast, strrchr_append_singleton, if_pos rfl]

theorem take_beforeLast (s : List α) : s.take (beforeLast c s).length = beforeLast c s := by
  by_cases h : c ∈ s
  · have hs := congrArg (List.take (beforeLast c s).length) (eq_append_of_mem h)
    exact hs.trans List.take_left
  · rw [beforeLast_of_not_mem h, List.take_length]

end CWrapper.StringSearch
