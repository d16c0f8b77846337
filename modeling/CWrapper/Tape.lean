import Mathlib.Data.List.Basic
import Mathlib.Data.PNat.Basic
import Mathlib.Logic.Function.Basic

/-!
A tape without end laid out on a ring of `n` cells. What lies on `n` positions in a row is kept
as long as nothing is written to them; writing the next positions extends it.
-/
namespace CWrapper.Tape

variable {α : Type*} {n : ℕ+}

def cell (n : ℕ+) (k : ℕ) : Fin n := ⟨k % n, Nat.mod_lt k n.pos⟩

/-- The elements on `size` positions from `front` on. -/
def contents (buf : Fin n → α) (front size : ℕ) : List α :=
  (List.range size).map fun i => buf (cell n (front + i))

def write (buf : Fin n → α) (pos : ℕ) : List α → Fin n → α
  | [] => buf
  | x :: xs => write (Function.update buf (cell n pos) x) (pos + 1) xs

variable {buf : Fin n → α} {front size pos k : ℕ} {xs ys : List α}

theorem cell_eq_iff {j k : ℕ} : cell n j = cell n k ↔ j % n = k % n := Fin.ext_iff

@[simp] theorem cell_val (i : Fin n) : cell n i = i := Fin.ext (Nat.mod_eq_of_lt i.isLt)

@[simp] theorem cell_mod_add (j k : ℕ) : cell n (j % n + k) = cell n (j + k) :=
  Fin.ext (Nat.mod_add_mod j n k)

theorem cell_cell_add (j k : ℕ) : cell n (cell n j + k) = cell n (j + k) := cell_mod_add j k

/-- Positions less than a round apart lie in different cells. -/
theorem cell_ne {j k : ℕ} (hlt : j < k) (hround : k < j + n) : cell n j ≠ cell n k := by
  intro h
  have hdvd : (n : ℕ) ∣ k - j :=
    Nat.dvd_of_mod_eq_zero (Nat.sub_mod_eq_zero_of_mod_eq (cell_eq_iff.mp h).symm)
  have hle := Nat.le_of_dvd (Nat.sub_pos_of_lt hlt) hdvd
  omega

@[simp] theorem length_contents : (contents buf front size).length = size := by
  simp [contents]

theorem contents_add (size' : ℕ) : contents buf front (size + size') =
    contents buf front size ++ contents buf (front + size) size' := by
  unfold contents
  rw [List.range_add, List.map_append, List.map_map]
  simp [Function.comp_def, Nat.add_assoc]

theorem contents_one : contents buf front 1 = [buf (cell n front)] := rfl

theorem contents_succ : contents buf front (size + 1) =
    buf (cell n front) :: contents buf (front + 1) size := by
  rw [Nat.add_comm size 1, contents_add, contents_one]
  rfl

/-- The front may be given by its cell. -/
theorem contents_cell (buf : Fin n → α) (front size : ℕ) :
    contents buf (cell n front) size = contents buf front size := by
  unfold contents
  simp only [cell_cell_add]

theorem drop_contents (hk : k ≤ size) :
    (contents buf front size).drop k = contents buf (front + k) (size - k) := by
  obtain ⟨m, rfl⟩ := Nat.exists_eq_add_of_le hk
  rw [contents_add, List.drop_left' length_contents, Nat.add_sub_cancel_left]

theorem take_contents (hk : k ≤ size) :
    (contents buf front size).take k = contents buf front k := by
  obtain ⟨m, rfl⟩ := Nat.exists_eq_add_of_le hk
  rw [contents_add, List.take_left' length_contents]

theorem contents_congr {buf' : Fin n → α}
    (h : ∀ i < size, buf' (cell n (front + i)) = buf (cell n (front + i))) :
    contents buf' front size = contents buf front size :=
  List.map_congr_left fun i hi => h i (List.mem_range.mp hi)

/-- A cell behind or in front of the positions does not matter to them. -/
theorem contents_update (buf : Fin n → α) (front j : ℕ) (x : α)
    (h : ∀ i < size, cell n (front + i) ≠ cell n j) :
    contents (Function.update buf (cell n j) x) front size = contents buf front size :=
  contents_congr fun i hi => Function.update_of_ne (h i hi) ..

/-- The position behind the last one is written. -/
theorem contents_append_one (x : α) (hroom : size < n) :
    contents (Function.update buf (cell n (front + size)) x) front (size + 1) =
      contents buf front size ++ [x] := by
  rw [contents_add, contents_one, Function.update_self, contents_update]
  intro i hi
  exact cell_ne (by omega) (by omega)

theorem contents_append (buf : Fin n → α) (front size : ℕ) (hroom : size + xs.length ≤ n) :
    contents (write buf (front + size) xs) front (size + xs.length) =
      contents buf front size ++ xs := by
  induction xs generalizing buf size with
  | nil => simp [write]
  | cons x xs ih =>
    rw [List.length_cons] at hroom ⊢
    have hsize : size + (xs.length + 1) = size + 1 + xs.length := by omega
    have hrest := ih (Function.update buf (cell n (front + size)) x) (size + 1) (by omega)
    rw [write, hsize, Nat.add_assoc front size 1, hrest, contents_append_one x (by omega)]
    simp

theorem write_append (buf : Fin n → α) (pos : ℕ) (xs ys : List α) :
    write buf pos (xs ++ ys) = write (write buf pos xs) (pos + xs.length) ys := by
  induction xs generalizing buf pos with
  | nil => rfl
  | cons x xs ih =>
    rw [List.cons_append, write, ih, write, List.length_cons]
    congr 1
    omega

/-- A position may be given by its cell. -/
theorem write_cell (buf : Fin n → α) (pos : ℕ) (xs : List α) :
    write buf (cell n pos) xs = write buf pos xs := by
  induction xs generalizing buf pos with
  | nil => rfl
  | cons x xs ih =>
    rw [write, write, cell_val, ← ih, ← ih _ (pos + 1), cell_cell_add]

theorem cell_self : (cell n n : ℕ) = 0 := Nat.mod_self n

/-- What reaches beyond the last cell goes on in the first one. -/
theorem write_wrap (buf : Fin n → α) (xs : List α) (hk : k ≤ xs.length) (hend : pos + k = n) :
    write (write buf pos (xs.take k)) 0 (xs.drop k) = write buf pos xs := by
  have hlen : (xs.take k).length = k := List.length_take_of_le hk
  have hsplit := write_append buf pos (xs.take k) (xs.drop k)
  rw [List.take_append_drop, hlen, hend] at hsplit
  rw [hsplit, ← write_cell _ n, cell_self]

theorem contents_wrap (buf : Fin n → α) (hk : k ≤ size) (hend : front + k = n) :
    contents buf front k ++ contents buf 0 (size - k) = contents buf front size := by
  obtain ⟨m, rfl⟩ := Nat.exists_eq_add_of_le hk
  rw [contents_add, Nat.add_sub_cancel_left, hend, ← contents_cell buf n, cell_self]

end CWrapper.Tape
