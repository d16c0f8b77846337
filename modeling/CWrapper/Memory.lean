import CWrapper.Tape

/-!
Copying between memory blocks. A copy has no meaning when it leaves a block on either side,
and a difference of sizes has none when it would wrap. A block of fixed size is a function on
its places; a block that a caller passes is a list.
-/
namespace CWrapper.Memory

variable {α : Type*} {n : ℕ}

/-- A difference of two sizes that is not to wrap. -/
def sub (a b : ℕ) : Option ℕ := if b ≤ a then some (a - b) else none

def slice (block : List α) (pos count : ℕ) : Option (List α) :=
  if pos + count ≤ block.length then some ((block.drop pos).take count) else none

def overwrite (block : List α) (pos : ℕ) (xs : List α) : Option (List α) :=
  if pos + xs.length ≤ block.length then
    some (block.take pos ++ xs ++ block.drop (pos + xs.length))
  else none

def load (data : Fin n → α) (start count : ℕ) : Option (List α) :=
  if h : start + count ≤ n then
    some (List.ofFn fun k : Fin count => data ⟨start + k, by omega⟩)
  else none

def store (data : Fin n → α) (start : ℕ) (xs : List α) : Option (Fin n → α) :=
  if start + xs.length ≤ n then
    some fun i => if start ≤ i then (xs[i - start]?).getD (data i) else data i
  else none

theorem sub_eq {a b : ℕ} (h : b ≤ a) : sub a b = some (a - b) := if_pos h

theorem slice_eq {block : List α} {pos count : ℕ} (h : pos + count ≤ block.length) :
    slice block pos count = some ((block.drop pos).take count) := if_pos h

theorem overwrite_eq {block xs : List α} {pos : ℕ} (h : pos + xs.length ≤ block.length) :
    overwrite block pos xs = some (block.take pos ++ xs ++ block.drop (pos + xs.length)) :=
  if_pos h

section Ring

variable {c : ℕ+} {data : Fin c → α} {start count : ℕ} {xs : List α}

/-- A copy out of the array reads the tape, as long as it stays in one round. -/
theorem load_eq (h : start + count ≤ c) :
    load data start count = some (Tape.contents data start count) := by
  rw [load, dif_pos h, Option.some.injEq]
  refine List.ext_getElem (by simp) fun k hk _ => ?_
  have hk' : k < count := by simpa using hk
  simp only [List.getElem_ofFn, Tape.contents, List.getElem_map, List.getElem_range]
  refine congrArg data (Fin.ext ?_)
  exact (Nat.mod_eq_of_lt (by omega)).symm

theorem write_apply (i : Fin c) (h : start + xs.length ≤ c) : Tape.write data start xs i =
    if start ≤ i then (xs[i - start]?).getD (data i) else data i := by
  induction xs generalizing data start with
  | nil => simp [Tape.write]
  | cons x xs ih =>
    rw [List.length_cons] at h
    rw [Tape.write, ih (by omega)]
    have hcell : Tape.cell c start = ⟨start, by omega⟩ :=
      Fin.ext (Nat.mod_eq_of_lt (by omega))
    rcases Nat.lt_trichotomy start i with hlt | heq | hgt
    · have hne : i ≠ Tape.cell c start := by
        rw [hcell]
        exact fun he => by simp [he] at hlt
      have hsub : (i : ℕ) - start = (i - (start + 1)) + 1 := by omega
      rw [if_pos (show start + 1 ≤ i by omega), if_pos (show start ≤ i by omega), hsub,
        List.getElem?_cons_succ, Function.update_of_ne hne]
    · have hi : i = Tape.cell c start := by
        rw [hcell]
        exact Fin.ext heq.symm
      rw [if_neg (show ¬ start + 1 ≤ i by omega), if_pos (show start ≤ i by omega), ← heq,
        Nat.sub_self, List.getElem?_cons_zero, hi, Function.update_self, Option.getD_some]
    · have hne : i ≠ Tape.cell c start := by
        rw [hcell]
        exact fun he => by simp [he] at hgt
      rw [if_neg (show ¬ start + 1 ≤ i by omega), if_neg (show ¬ start ≤ i by omega),
        Function.update_of_ne hne]

/-- A copy into the array writes the tape, as long as it stays in one round. -/
theorem store_eq (h : start + xs.length ≤ c) :
    store data start xs = some (Tape.write data start xs) := by
  rw [store, if_pos h, Option.some.injEq]
  funext i
  exact (write_apply i h).symm

end Ring

end CWrapper.Memory
