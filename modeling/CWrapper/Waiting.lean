import Mathlib.Data.Fintype.Card
import Mathlib.Data.List.Nodup
import Mathlib.Data.Nat.Notation
import Mathlib.Logic.Function.Basic
import Mathlib.Logic.Relation
import Mathlib.Order.WellFounded

/-!
Locks and waits. A lock that its holder may take again is free when the holder has released it as
often as it has taken it. On a condition variable no thread waits in vain as long as every unit that
has been brought is covered: by nobody waiting, by a broadcast that someone owes, or by as many
threads that were woken and will try. Where each of finitely many parties waits for one of them,
some of them wait in a cycle.
-/
namespace CWrapper.ReentrantLock

/-- Nobody, or the holder and how many times more than once it has the lock. -/
abbrev Lock (Th : Type*) := Option (Th × ℕ)

variable {Th : Type*} [DecidableEq Th]

def held : Lock Th → Th → ℕ
  | none, _ => 0
  | some (holder, more), th => if holder = th then more + 1 else 0

/-- A thread takes the lock, unless another one has it. -/
def acquire : Lock Th → Th → Option (Lock Th)
  | none, th => some (some (th, 0))
  | some (holder, more), th => if holder = th then some (some (holder, more + 1)) else none

def release : Lock Th → Lock Th
  | some (holder, more + 1) => some (holder, more)
  | _ => none

variable {l l' : Lock Th} {th u : Th}

theorem holder_of_held {holder : Th} {more : ℕ} (h : 0 < held (some (holder, more)) th) :
    holder = th := by
  by_contra hne
  rw [held, if_neg hne] at h
  omega

/-- Only one thread has the lock. -/
theorem held_unique (hth : 0 < held l th) (hu : 0 < held l u) : th = u := by
  cases l with
  | none => cases hth
  | some pair => exact (holder_of_held hth).symm.trans (holder_of_held hu)

/-- The lock is free, or some thread has it. -/
theorem free_or_held (l : Lock Th) : l = none ∨ ∃ th, 0 < held l th := by
  cases l with
  | none => exact Or.inl rfl
  | some pair => exact Or.inr ⟨pair.1, by simp [held]⟩

theorem held_acquire (h : acquire l th = some l') :
    held l' = Function.update (held l) th (held l th + 1) := by
  funext u
  cases l with
  | none =>
    obtain rfl := Option.some.inj h
    by_cases hu : u = th
    · simp [held, hu]
    · simp [held, Function.update_of_ne hu, Ne.symm hu]
  | some pair =>
    obtain ⟨rfl, hsome⟩ := Option.ite_none_right_eq_some.mp h
    obtain rfl := Option.some.inj hsome
    by_cases hu : u = pair.1
    · simp [held, hu]
    · simp [held, Function.update_of_ne hu, Ne.symm hu]

/-- A thread gets the lock where no other one has it. -/
theorem acquire_isSome (h : ∀ u, 0 < held l u → u = th) : (acquire l th).isSome = true := by
  cases l with
  | none => rfl
  | some pair =>
    have hholder : pair.1 = th := h pair.1 (by simp [held])
    simp [acquire, hholder]

theorem held_release (h : 0 < held l th) :
    held (release l) = Function.update (held l) th (held l th - 1) := by
  funext u
  cases l with
  | none => cases h
  | some pair =>
    obtain ⟨holder, more⟩ := pair
    obtain rfl := holder_of_held h
    by_cases hu : u = holder
    · cases more <;> simp [held, release, hu]
    · cases more <;> simp [held, release, Function.update_of_ne hu, Ne.symm hu]

end CWrapper.ReentrantLock

namespace CWrapper.WaitSet

variable {Th : Type*}

structure Covered (closed : Bool) (waiters : List Th) (units : ℕ) (retries : Th → Prop)
    (owed : Prop) : Prop where
  opened : closed = false →
    waiters = [] ∨ owed ∨ ∃ ws : List Th, ws.Nodup ∧ (∀ u ∈ ws, retries u) ∧ units ≤ ws.length
  closed : closed = true → waiters = [] ∨ owed

variable {closed closed' : Bool} {waiters waiters' : List Th} {units units' : ℕ}
  {retries retries' : Th → Prop} {owed owed' : Prop} {th : Th}

theorem Covered.of_owed (h : owed) : Covered closed waiters units retries owed :=
  ⟨fun _ => Or.inr (Or.inl h), fun _ => Or.inr h⟩

theorem Covered.of_empty : Covered closed ([] : List Th) units retries owed :=
  ⟨fun _ => Or.inl rfl, fun _ => Or.inl rfl⟩

/-- Without units any number of threads may wait. -/
theorem Covered.no_units : Covered false waiters 0 retries owed :=
  ⟨fun _ => Or.inr (Or.inr ⟨[], List.nodup_nil, by simp, Nat.zero_le _⟩), by simp⟩

theorem Covered.mono (h : Covered closed waiters units retries owed)
    (hwaiters : waiters = [] → waiters' = []) (hunits : units' ≤ units)
    (hretries : ∀ u, retries u → retries' u) (howed : owed → owed') :
    Covered closed waiters' units' retries' owed' where
  opened hc := by
    rcases h.opened hc with hnil | ho | ⟨ws, hnodup, hws, hle⟩
    · exact Or.inl (hwaiters hnil)
    · exact Or.inr (Or.inl (howed ho))
    · exact Or.inr (Or.inr ⟨ws, hnodup, fun u hu => hretries u (hws u hu), Nat.le_trans hunits hle⟩)
  closed hc := (h.closed hc).imp hwaiters howed

/-- A thread stops trying, with at most one of the units. -/
theorem Covered.take [DecidableEq Th] (th : Th) (h : Covered closed waiters units retries owed)
    (hunits : units' ≤ units - 1) (hretries : ∀ u, u ≠ th → retries u → retries' u)
    (howed : owed → owed') : Covered closed waiters units' retries' owed' where
  opened hc := by
    rcases h.opened hc with hnil | ho | ⟨ws, hnodup, hws, hle⟩
    · exact Or.inl hnil
    · exact Or.inr (Or.inl (howed ho))
    · refine Or.inr (Or.inr ⟨ws.erase th, hnodup.erase th, fun u hu => ?_, ?_⟩)
      · have hu' := (List.Nodup.mem_erase_iff hnodup).mp hu
        exact hretries u hu'.1 (hws u hu'.2)
      · by_cases hth : th ∈ ws
        · rw [List.length_erase_of_mem hth]
          omega
        · rw [List.erase_of_not_mem hth]
          omega
  closed hc := (h.closed hc).imp_right howed

/-- A signal covers one more unit. -/
theorem Covered.signal (h : Covered closed waiters units retries owed)
    (hfresh : ¬ retries th) (hunits : units' ≤ units + 1)
    (hwaiters : waiters = [] → waiters' = []) (hretries : ∀ u, u = th ∨ retries u → retries' u)
    (howed : owed → owed') : Covered closed waiters' units' retries' owed' where
  opened hc := by
    rcases h.opened hc with hnil | ho | ⟨ws, hnodup, hws, hle⟩
    · exact Or.inl (hwaiters hnil)
    · exact Or.inr (Or.inl (howed ho))
    · refine Or.inr (Or.inr ⟨th :: ws, ?_, fun u hu => ?_, ?_⟩)
      · exact List.nodup_cons.mpr ⟨fun hth => hfresh (hws th hth), hnodup⟩
      · exact hretries u ((List.mem_cons.mp hu).imp_right (hws u))
      · rw [List.length_cons]
        omega
  closed hc := (h.closed hc).imp hwaiters howed

/-- With no thread about to try and no broadcast owed, a waiter has no unit to take. -/
theorem Covered.settled (h : Covered closed waiters units retries owed) (hth : th ∈ waiters)
    (hretries : ∀ u, ¬ retries u) (howed : ¬ owed) : closed = false ∧ units = 0 := by
  have hne : waiters ≠ [] := List.ne_nil_of_mem hth
  cases closed with
  | true => exact absurd ((h.closed rfl).resolve_left hne) howed
  | false =>
    obtain ⟨ws, -, hws, hle⟩ := ((h.opened rfl).resolve_left hne).resolve_left howed
    have hnil : ws = [] := List.eq_nil_iff_forall_not_mem.mpr fun u hu => hretries u (hws u hu)
    rw [hnil] at hle
    exact ⟨rfl, Nat.le_zero.mp hle⟩

end CWrapper.WaitSet

namespace CWrapper.WaitGraph

open Relation

variable {P : Type*} {waits waits' : P → P → Prop}

/-- In a finite set where each element leads to another one, some chain comes back to its beginning.
-/
theorem exists_cycle {S : Set P} (hfin : S.Finite) (hne : S.Nonempty)
    (h : ∀ p ∈ S, ∃ q ∈ S, waits p q) : ∃ p ∈ S, TransGen waits p p := by
  by_contra hno
  have hfinite : Finite S := hfin
  have htrans : IsTrans S fun p q => TransGen waits q p := ⟨fun _ _ _ hpq hqr => hqr.trans hpq⟩
  have hirrefl : Std.Irrefl fun p q : S => TransGen waits q.1 p.1 :=
    ⟨fun p hp => hno ⟨p, p.2, hp⟩⟩
  -- a party that is last in the order of waiting waits for nobody
  obtain ⟨p, -, hlast⟩ := (Finite.wellFounded_of_trans_of_irrefl
    fun p q : S => TransGen waits q.1 p.1).has_min Set.univ ⟨⟨hne.some, hne.some_mem⟩, trivial⟩
  obtain ⟨q, hq, hwaits⟩ := h p p.2
  exact hlast ⟨q, hq⟩ trivial (.single hwaits)

/-- A path to a party that waits leads over parties that wait. -/
theorem path_waits {p q r : P} (hpath : TransGen waits p q) (hq : waits q r) :
    TransGen (fun a b => waits a b ∧ ∃ c, waits b c) p q := by
  induction hpath generalizing r with
  | single hpq => exact .single ⟨hpq, r, hq⟩
  | tail _ hbc ih => exact .tail (ih hbc) ⟨hbc, r, hq⟩

theorem cycle_starts {p : P} (hcycle : TransGen waits p p) : ∃ q r, waits p q ∧ waits q r := by
  obtain ⟨q, hpq, hqp⟩ := TransGen.head'_iff.mp hcycle
  obtain rfl | ⟨r, hqr, -⟩ := ReflTransGen.cases_head hqp
  · exact ⟨q, q, hpq, hpq⟩
  · exact ⟨q, r, hpq, hqr⟩

/-- A cycle stays where the waits for parties that wait stay. -/
theorem cycle_kept {p : P} (hcycle : TransGen waits p p)
    (hkept : ∀ a b c, waits a b → waits b c → waits' a b) : TransGen waits' p p := by
  obtain ⟨q, -, hpq, -⟩ := cycle_starts hcycle
  refine (path_waits hcycle hpq).lift id fun a b hab => ?_
  obtain ⟨hwaits, c, hnext⟩ := hab
  exact hkept a b c hwaits hnext

end CWrapper.WaitGraph
