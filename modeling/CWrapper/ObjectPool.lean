import CWrapper.Lifetimes
import CWrapper.PoolAllocator

/-!
Pool.h: ObjectPool and DataPool. They construct an object in each block that Pool hands out and
destruct it before they give the block back; which blocks hold an object is known to the bitmap of
Pool only. Every call runs under mLock from its beginning to its end.
-/
namespace CWrapper.Pool

open Lifetimes

variable {L : Layout}

abbrev Trace := List (Event UInt64)

/-- alloc and the placement new. -/
def construct (p : Pool L) : Option UInt64 × Trace × Pool L :=
  match p.alloc with
  | (none, p) => (none, [], p)
  | (some storage, p) => (some storage, [.construct storage], p)

/-- The destructor and free, for a pointer that is allocated. -/
def destruct (p : Pool L) (ptr : UInt64) : Trace × Pool L :=
  if ptr = 0 then ([], p)
  else if p.isAllocated ptr = false then ([], p)
  else ([.destruct ptr], (p.free ptr).2)

/-- clear with the destructor as its cleanup. -/
def destructAll (p : Pool L) : Trace × Pool L := (p.clear.1.map .destruct, p.clear.2)

namespace ObjectPool

def create (p : Pool L) : Option UInt64 × Trace × Pool L := p.construct
def destroy (p : Pool L) (ptr : UInt64) : Trace × Pool L := p.destruct ptr
def clear (p : Pool L) : Trace × Pool L := p.destructAll
def destructor (p : Pool L) : Trace × Pool L := clear p

end ObjectPool

namespace DataPool

def alloc (p : Pool L) : Option UInt64 × Trace × Pool L := p.construct
def free (p : Pool L) (ptr : UInt64) : Trace × Pool L := p.destruct ptr
def clear (p : Pool L) : Trace × Pool L := p.destructAll
def destructor (p : Pool L) : Trace × Pool L := clear p

end DataPool

inductive Wrapper
  | objectPool
  | dataPool
  deriving DecidableEq, Repr

inductive Call
  | create
  | destroy (ptr : UInt64)
  | clear

namespace Wrapper

def create : Wrapper → Pool L → Option UInt64 × Trace × Pool L
  | objectPool => ObjectPool.create
  | dataPool => DataPool.alloc

def apply : Wrapper → Pool L → Call → Trace × Pool L
  | objectPool, p, .create => (ObjectPool.create p).2
  | objectPool, p, .destroy ptr => ObjectPool.destroy p ptr
  | objectPool, p, .clear => ObjectPool.clear p
  | dataPool, p, .create => (DataPool.alloc p).2
  | dataPool, p, .destroy ptr => DataPool.free p ptr
  | dataPool, p, .clear => DataPool.clear p

def destructor : Wrapper → Pool L → Trace × Pool L
  | objectPool => ObjectPool.destructor
  | dataPool => DataPool.destructor

def run (w : Wrapper) (trace : Trace) (p : Pool L) : List Call → Trace × Pool L
  | [] => (trace, p)
  | c :: calls => w.run (trace ++ (w.apply p c).1) (w.apply p c).2 calls

end Wrapper

/-- The two classes do the same. -/
def call (p : Pool L) : Call → Trace × Pool L
  | .create => p.construct.2
  | .destroy ptr => p.destruct ptr
  | .clear => p.destructAll

theorem apply_eq_call (w : Wrapper) (p : Pool L) (c : Call) : w.apply p c = p.call c := by
  cases w <;> cases c <;> rfl

section Steps

variable {p : Pool L} {a : Allocator L.Capacity} {trace : Trace}

/-- The address is that of a block which is not among the free ones. -/
def held (free : List (Fin L.Capacity)) (x : UInt64) : Bool :=
  decide (∃ i, free.contains i = false ∧ L.block i = x)

theorem held_iff {free : List (Fin L.Capacity)} (x : UInt64) :
    held free x = true ↔ ∃ i, i ∉ free ∧ L.block i = x := by
  simp [held]

theorem held_block {free : List (Fin L.Capacity)} (i : Fin L.Capacity) :
    held free (L.block i) = true ↔ i ∉ free := by
  rw [held_iff]
  constructor
  · intro ⟨j, hj, heq⟩
    rwa [← block_injective heq]
  · intro hi
    exact ⟨i, hi, rfl⟩

theorem held_cons_self {free : List (Fin L.Capacity)} (i : Fin L.Capacity) :
    held (i :: free) (L.block i) = false := by
  rw [← Bool.not_eq_true, held_block]
  simp

theorem held_cons_of_ne {free : List (Fin L.Capacity)} {i : Fin L.Capacity} {x : UInt64}
    (hx : x ≠ L.block i) : held (i :: free) x = held free x := by
  rw [Bool.eq_iff_iff, held_iff, held_iff]
  constructor
  · intro ⟨j, hj, heq⟩
    exact ⟨j, fun hmem => hj (List.mem_cons_of_mem i hmem), heq⟩
  · intro ⟨j, hj, heq⟩
    refine ⟨j, ?_, heq⟩
    rw [List.mem_cons, not_or]
    exact ⟨fun hji => hx (by rw [← heq, hji]), hj⟩

theorem held_full (x : UInt64) : held (Allocator.full L.Capacity).free x = false := by
  rw [← Bool.not_eq_true, held_iff]
  simp [Allocator.full]

/-- The blocks with an object in them are those that are not free. -/
structure Holds (p : Pool L) (trace : Trace) (a : Allocator L.Capacity) : Prop where
  represents : Represents p a
  alternates : ∀ x, Alternates trace x (held a.free x)

theorem Holds.live_iff (h : Holds p trace a) (x : UInt64) : Live trace x ↔ held a.free x = true :=
  (h.alternates x).live_iff

theorem holds_new : Holds (new L) [] (.full L.Capacity) where
  represents := represents_new
  alternates x := by
    rw [held_full]
    exact alternates_nil x

/-- create constructs an object in a free block, unless there is none. -/
theorem construct_cases (h : Represents p a) :
    (a.free = [] ∧ p.construct = (none, [], p.alloc.2) ∧ Represents p.alloc.2 a) ∨
    ∃ i rest, ∃ hnodup : (i :: rest).Nodup, a = ⟨i :: rest, hnodup⟩ ∧
      p.construct = (some (L.block i), [.construct (L.block i)], p.alloc.2) ∧
      Represents p.alloc.2 ⟨rest, hnodup.of_cons⟩ := by
  obtain ⟨hptr, hrep⟩ := h.alloc
  rcases a with ⟨_ | ⟨i, rest⟩, hnodup⟩
  · refine Or.inl ⟨rfl, ?_, hrep⟩
    rw [construct]
    split
    · rename_i q heq
      rw [heq]
    · rename_i storage q heq
      rw [heq] at hptr
      cases hptr
  · refine Or.inr ⟨i, rest, hnodup, rfl, ?_, hrep⟩
    rw [construct]
    split
    · rename_i q heq
      rw [heq] at hptr
      cases hptr
    · rename_i storage q heq
      rw [heq] at hptr ⊢
      obtain rfl := Option.some.inj hptr
      rfl

theorem Holds.construct (h : Holds p trace a) :
    ∃ a', Holds p.construct.2.2 (trace ++ p.construct.2.1) a' := by
  rcases construct_cases h.represents with
    ⟨-, heq, hrep⟩ | ⟨i, rest, hnodup, rfl, heq, hrep⟩
  · rw [heq]
    refine ⟨a, hrep, ?_⟩
    simpa using h.alternates
  · rw [heq]
    refine ⟨_, hrep, fun x => ?_⟩
    have hi : i ∉ rest := (List.nodup_cons.mp hnodup).1
    have halternates := h.alternates x
    by_cases hx : x = L.block i
    · subst hx
      rw [held_cons_self] at halternates
      rw [(held_block i).mpr hi]
      exact halternates.construct
    · rw [held_cons_of_ne hx] at halternates
      apply halternates.other
      intro e he
      rw [List.mem_singleton.mp he]
      exact Ne.symm hx

/-- destroy destructs an object that is there, and does nothing for any other pointer. -/
theorem destruct_cases (h : Represents p a) (ptr : UInt64) :
    p.destruct ptr = ([], p) ∨
    ∃ i, ∃ hi : i ∉ a.free, L.block i = ptr ∧ (p.destruct ptr).1 = [.destruct ptr] ∧
      Represents (p.destruct ptr).2 (a.release i hi) := by
  rcases h.free_cases ptr with ⟨hnull, -⟩ | ⟨i, hi, hnull, hat, -, hrep⟩ | ⟨hnull, hfree, -⟩
  · exact Or.inl (if_pos hnull)
  · right
    have hallocated : p.isAllocated ptr = true := by
      rw [isAllocated, valid_getIndex_eq, hat]
      exact (h.used_iff i).mpr hi
    have heq : p.destruct ptr = ([.destruct ptr], (p.free ptr).2) := by
      simp [destruct, hnull, hallocated]
    refine ⟨i, hi, ((blockAt_eq_some ptr i).mp hat).2, ?_, ?_⟩
    · rw [heq]
    · rw [heq]
      exact hrep
  · left
    have hallocated : p.isAllocated ptr = false := by
      rw [isAllocated, valid_getIndex_eq]
      cases hat : L.blockAt ptr with
      | none => rfl
      | some i =>
        have hi := hfree i hat
        show p.isUsed i = false
        rw [h.used i]
        simpa using hi
    simp [destruct, hallocated]

theorem Holds.destruct (h : Holds p trace a) (ptr : UInt64) :
    ∃ a', Holds (p.destruct ptr).2 (trace ++ (p.destruct ptr).1) a' := by
  rcases destruct_cases h.represents ptr with heq | ⟨i, hi, rfl, hevents, hrep⟩
  · rw [heq]
    refine ⟨a, h.represents, ?_⟩
    simpa using h.alternates
  · rw [hevents]
    refine ⟨_, hrep, fun x => ?_⟩
    have halternates := h.alternates x
    by_cases hx : x = L.block i
    · subst hx
      rw [(held_block i).mpr hi] at halternates
      rw [Allocator.release, held_cons_self]
      exact halternates.destruct
    · rw [Allocator.release, held_cons_of_ne hx]
      apply halternates.other
      intro e he
      rw [List.mem_singleton.mp he]
      exact Ne.symm hx

theorem mem_clear (h : Represents p a) (x : UInt64) : x ∈ p.clear.1 ↔ held a.free x = true := by
  rw [held_iff, clear, h.live, List.mem_map]
  simp [Allocator.live]

theorem Holds.destructAll (h : Holds p trace a) :
    Holds p.destructAll.2 (trace ++ p.destructAll.1) (.full L.Capacity) where
  represents := represents_new
  alternates x := by
    rw [held_full]
    exact (h.alternates x).destructAll h.represents.sound.cleaned.1 (mem_clear h.represents x)

/-- A call constructs and destroys objects in the blocks that it takes and gives back. -/
theorem Holds.call (h : Holds p trace a) (c : Call) :
    ∃ a', Holds (p.call c).2 (trace ++ (p.call c).1) a' := by
  cases c with
  | create => exact h.construct
  | destroy ptr => exact h.destruct ptr
  | clear => exact ⟨_, h.destructAll⟩

/-- By induction over the calls: in every block, constructions and destructions alternate. -/
theorem Holds.run (h : Holds p trace a) (w : Wrapper) (calls : List Call) :
    ∃ a', Holds (w.run trace p calls).2 (w.run trace p calls).1 a' := by
  induction calls generalizing p trace a with
  | nil => exact ⟨a, h⟩
  | cons c calls ih =>
    rw [Wrapper.run, apply_eq_call]
    obtain ⟨a', hnext⟩ := h.call c
    exact ih hnext

/-- What a call destructs is live. -/
theorem Holds.destructs_live (h : Holds p trace a) (c : Call) {x : UInt64}
    (hx : .destruct x ∈ (p.call c).1) : Live trace x := by
  rw [h.live_iff]
  cases c with
  | create =>
    rcases construct_cases h.represents with ⟨-, heq, -⟩ | ⟨i, rest, -, -, heq, -⟩
    · simp [Pool.call, heq] at hx
    · simp [Pool.call, heq] at hx
  | destroy ptr =>
    rcases destruct_cases h.represents ptr with heq | ⟨i, hi, rfl, hevents, -⟩
    · simp [Pool.call, heq] at hx
    · rw [Pool.call, hevents, List.mem_singleton] at hx
      obtain rfl := Event.destruct.inj hx
      exact (held_block i).mpr hi
  | clear =>
    obtain ⟨y, hy, heq⟩ := List.mem_map.mp hx
    obtain rfl := Event.destruct.inj heq
    exact (mem_clear h.represents y).mp hy

def liveBlocks (L : Layout) (trace : Trace) : Finset (Fin L.Capacity) :=
  Finset.univ.filter fun i => Live trace (L.block i)

/-- create() returns nullptr exactly when no block is free. -/
theorem Holds.create_null_iff (h : Holds p trace a) :
    p.construct.1 = none ↔ (liveBlocks L trace).card = L.Capacity := by
  have hcard : (liveBlocks L trace).card = L.Capacity ↔ ∀ i, i ∉ a.free := by
    have hall := Finset.card_filter_eq_iff (s := Finset.univ)
      (p := fun i => Live trace (L.block i))
    simp only [h.live_iff, held_block] at hall
    simpa [liveBlocks, h.live_iff, held_block] using hall
  rw [hcard]
  rcases construct_cases h.represents with ⟨hfree, heq, -⟩ | ⟨i, rest, -, rfl, heq, -⟩
  · simp [heq, hfree]
  · rw [heq]
    refine iff_of_false (by simp) fun hall => ?_
    exact hall i List.mem_cons_self

/-- The block that create() takes had no object in it. -/
theorem Holds.create_fresh (h : Holds p trace a) {storage : UInt64}
    (heq : p.construct.1 = some storage) :
    (∃ i, L.block i = storage) ∧ ¬Live trace storage := by
  rcases construct_cases h.represents with ⟨-, hnone, -⟩ | ⟨i, rest, hnodup, rfl, hsome, -⟩
  · rw [hnone] at heq
    cases heq
  · rw [hsome] at heq
    obtain rfl := Option.some.inj heq
    refine ⟨⟨i, rfl⟩, fun hlive => ?_⟩
    have hheld := (h.live_iff (L.block i)).mp hlive
    rw [held_cons_self] at hheld
    cases hheld

/-- Each construction in a block is paired with one destruction. Whatever the calls and their
pointers were, constructs and destructs alternate in each block; a new object gets a block that
holds none, and no block once all hold one; only live objects are destructed; and the destructor
of the pool leaves none. -/
theorem construct_destruct_paired (w : Wrapper) (L : Layout) (calls : List Call) :
    let trace := (w.run [] (new L) calls).1
    let p := (w.run [] (new L) calls).2
    (∀ x, ∃ live, Alternates trace x live) ∧
    (∀ c x, .destruct x ∈ (w.apply p c).1 → Live trace x) ∧
    (∀ storage, (w.create p).1 = some storage →
      (∃ i, L.block i = storage) ∧ ¬Live trace storage) ∧
    ((w.create p).1 = none ↔ (liveBlocks L trace).card = L.Capacity) ∧
    ∀ x, Alternates (trace ++ (w.destructor p).1) x false := by
  intro trace p
  obtain ⟨a, h⟩ : ∃ a, Holds p trace a := holds_new.run w calls
  have hcreate : w.create p = p.construct := by cases w <;> rfl
  have hdestructor : w.destructor p = p.destructAll := by cases w <;> rfl
  refine ⟨fun x => ⟨_, h.alternates x⟩, fun c x hx => ?_, fun storage heq => ?_, ?_, fun x => ?_⟩
  · rw [apply_eq_call] at hx
    exact h.destructs_live c hx
  · rw [hcreate] at heq
    exact h.create_fresh heq
  · rw [hcreate]
    exact h.create_null_iff
  · have hlast := h.destructAll.alternates x
    rw [held_full] at hlast
    rwa [hdestructor]

end Steps

end CWrapper.Pool
