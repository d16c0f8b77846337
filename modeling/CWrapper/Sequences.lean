import Mathlib.Data.List.Basic
import Mathlib.Data.List.InsertIdx
import Mathlib.Data.List.Nodup
import Mathlib.Data.List.Pairwise
import Mathlib.Logic.Function.Basic
import Mathlib.Order.Lattice

/-!
Lists: logs with the latest entry first, and which of two entries was written earlier; lists ordered
by a key, elements of equal key in the order of their stamps; and a list threaded as a stack through
an array of links.
-/
namespace CWrapper.Chronicle

variable {E : Type*}

/-- When new entries are put on a log, a place in it is among the old ones or the new. -/
theorem append_eq_split {new log later earlier : List E} {e : E}
    (h : new ++ log = later ++ e :: earlier) :
    (∃ rest, later = new ++ rest ∧ log = rest ++ e :: earlier) ∨
      ∃ rest, new = later ++ e :: rest := by
  rcases List.append_eq_append_iff.mp h with ⟨rest, hlater, hlog⟩ | ⟨rest, hnew, hearlier⟩
  · exact Or.inl ⟨rest, hlater, hlog⟩
  · rcases rest with _ | ⟨x, rest⟩
    · refine Or.inl ⟨[], ?_, hearlier.symm⟩
      simpa using hnew.symm
    · obtain ⟨rfl, -⟩ := List.cons.inj hearlier
      exact Or.inr ⟨rest, hnew⟩

/-- `a` was written before an occurrence of `b`. -/
def Earlier (a b : E) (log : List E) : Prop :=
  ∃ later earlier, log = later ++ b :: earlier ∧ a ∈ earlier

theorem Earlier.mem {a b : E} {log : List E} (h : Earlier a b log) : a ∈ log := by
  obtain ⟨later, earlier, rfl, ha⟩ := h
  exact List.mem_append_right _ (List.mem_cons_of_mem _ ha)

theorem Earlier.append {a b : E} {log : List E} (h : Earlier a b log) (new : List E) :
    Earlier a b (new ++ log) := by
  obtain ⟨later, earlier, rfl, ha⟩ := h
  exact ⟨new ++ later, earlier, (List.append_assoc ..).symm, ha⟩

/-- The order of two entries is settled once the second is written. -/
theorem earlier_append_iff {a b : E} {new log : List E} (hb : b ∉ new) :
    Earlier a b (new ++ log) ↔ Earlier a b log := by
  refine ⟨?_, fun h => h.append new⟩
  rintro ⟨later, earlier, hlog, ha⟩
  rcases append_eq_split hlog with ⟨rest, -, hlog⟩ | ⟨rest, rfl⟩
  · exact ⟨rest, earlier, hlog, ha⟩
  · exact absurd (by simp) hb

theorem earlier_cons_self_iff {a b : E} {log : List E} (hb : b ∉ log) :
    Earlier a b (b :: log) ↔ a ∈ log := by
  refine ⟨?_, fun ha => ⟨[], log, rfl, ha⟩⟩
  rintro ⟨later, earlier, hlog, ha⟩
  rcases later with _ | ⟨x, later⟩
  · obtain ⟨-, rfl⟩ := List.cons.inj hlog
    exact ha
  · obtain ⟨-, rfl⟩ := List.cons.inj hlog
    exact absurd (by simp) hb

end CWrapper.Chronicle

namespace CWrapper.StableList

variable {α κ : Type*} [LinearOrder κ] {key key' : α → κ} {stamp stamp' : α → ℕ}

def Before (key : α → κ) (stamp : α → ℕ) (a b : α) : Prop :=
  key a < key b ∨ key a = key b ∧ stamp a < stamp b

def Ordered (key : α → κ) (stamp : α → ℕ) (l : List α) : Prop :=
  l.Pairwise (Before key stamp)

theorem Before.le {a b : α} (h : Before key stamp a b) : key a ≤ key b := by
  rcases h with h | h
  · exact le_of_lt h
  · exact le_of_eq h.1

theorem Before.of_le {a b : α} (hkey : key a ≤ key b) (hstamp : stamp a < stamp b) :
    Before key stamp a b := by
  rcases lt_or_eq_of_le hkey with h | h
  · exact Or.inl h
  · exact Or.inr ⟨h, hstamp⟩

theorem Ordered.sublist {l l' : List α} (h : Ordered key stamp l) (hl : l'.Sublist l) :
    Ordered key stamp l' := List.Pairwise.sublist hl h

theorem Ordered.congr {l : List α} (h : Ordered key stamp l) (hkey : ∀ a ∈ l, key' a = key a)
    (hstamp : ∀ a ∈ l, stamp' a = stamp a) : Ordered key' stamp' l := by
  refine List.Pairwise.imp_of_mem ?_ h
  intro a b ha hb hbefore
  simpa only [Before, hkey a ha, hkey b hb, hstamp a ha, hstamp b hb] using hbefore

theorem Ordered.head_le {a : α} {l : List α} (h : Ordered key stamp (a :: l)) :
    ∀ b ∈ a :: l, key a ≤ key b := by
  intro b hb
  rcases List.mem_cons.mp hb with rfl | hb
  · exact le_refl _
  · exact (List.rel_of_pairwise_cons h hb).le

theorem pairwise_insertIdx {r : α → α → Prop} {l : List α} {i : ℕ} {x : α} (h : l.Pairwise r)
    (hbefore : ∀ y ∈ l.take i, r y x) (hafter : ∀ y ∈ l.drop i, r x y) :
    (l.insertIdx i x).Pairwise r := by
  induction l generalizing i with
  | nil => cases i <;> simp
  | cons a l ih =>
    obtain ⟨ha, hl⟩ := List.pairwise_cons.mp h
    cases i with
    | zero => exact List.pairwise_cons.mpr ⟨hafter, h⟩
    | succ i =>
      rw [List.insertIdx_succ_cons]
      refine List.pairwise_cons.mpr ⟨?_, ih hl (fun y hy => hbefore y (by simp [hy])) hafter⟩
      intro y hy
      rcases List.eq_or_mem_of_mem_insertIdx hy with rfl | hy
      · exact hbefore a (by simp)
      · exact ha y hy

/-- What stands from position `i` on has a greater key if the element at `i` has. -/
theorem Ordered.lt_drop {l : List α} {i : ℕ} {k : κ} (h : Ordered key stamp l)
    (hi : ∀ y, l[i]? = some y → k < key y) : ∀ y ∈ l.drop i, k < key y := by
  intro y hy
  cases hd : l.drop i with
  | nil => simp [hd] at hy
  | cons b rest =>
    have hb : l[i]? = some b := by
      have hget : (l.drop i)[0]? = some b := by rw [hd]; rfl
      simpa [List.getElem?_drop] using hget
    rw [hd] at hy
    have hrest : Ordered key stamp (b :: rest) := hd ▸ h.sublist (List.drop_sublist i l)
    exact lt_of_lt_of_le (hi b hb) (hrest.head_le y hy)

theorem Ordered.insert {l : List α} {i : ℕ} {x : α} (h : Ordered key stamp l)
    (hbefore : ∀ y ∈ l.take i, key y ≤ key x) (hi : ∀ y, l[i]? = some y → key x < key y)
    (hstamp : ∀ y ∈ l, stamp y < stamp x) : Ordered key stamp (l.insertIdx i x) := by
  refine pairwise_insertIdx h ?_ ?_
  · intro y hy
    exact Before.of_le (hbefore y hy) (hstamp y (List.mem_of_mem_take hy))
  · intro y hy
    exact Or.inl (h.lt_drop hi y hy)

end CWrapper.StableList

namespace CWrapper.LinkedStack

variable {α : Type*}

def Linked (next : α → Option α) : Option α → List α → Prop
  | head, [] => head = none
  | head, x :: xs => head = some x ∧ Linked next (next x) xs

variable {next next' : α → Option α} {head : Option α} {x : α} {xs ys : List α}

/-- Links of cells that are not on the stack do not matter. -/
theorem Linked.congr (h : Linked next head xs) (heq : ∀ x ∈ xs, next' x = next x) :
    Linked next' head xs := by
  induction xs generalizing head with
  | nil => exact h
  | cons x xs ih =>
    obtain ⟨rfl, hxs⟩ := h
    refine ⟨rfl, ?_⟩
    rw [heq x List.mem_cons_self]
    exact ih hxs fun y hy => heq y (List.mem_cons_of_mem x hy)

theorem Linked.push [DecidableEq α] (h : Linked next head xs) (hx : x ∉ xs) :
    Linked (Function.update next x head) (some x) (x :: xs) := by
  refine ⟨rfl, ?_⟩
  rw [Function.update_self]
  refine h.congr fun y hy => Function.update_of_ne ?_ ..
  rintro rfl
  exact hx hy

/-- Links that follow a list lead through it. -/
theorem linked_of_getElem (hnext : ∀ i x, xs[i]? = some x → next x = xs[i + 1]?) :
    Linked next xs.head? xs := by
  induction xs with
  | nil => rfl
  | cons x xs ih =>
    refine ⟨rfl, ?_⟩
    have hx : next x = xs.head? := by simpa [List.head?_eq_getElem?] using hnext 0 x rfl
    rw [hx]
    exact ih fun i y hy => by simpa using hnext (i + 1) y (by simpa using hy)

end CWrapper.LinkedStack
