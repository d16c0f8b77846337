import CWrapper.RawFunction
import Mathlib.Logic.Function.Basic

/-!
Any number of FixedFunctions that are constructed, moved into each other, reset, invoked and
destroyed in any order. Every target lives in one of them from its construction to its
destruction, and it is destroyed once.
-/
namespace CWrapper.RawFunction

open Lifetimes

/-- The objects that exist, the heap of their targets, and the targets called so far. -/
structure Family (I K : Type) where
  objects : I → Option (RawFunction K)
  heap : Heap
  called : List (Target K)

inductive FamilyAction (I K : Type)
  | construct (i : I) (func : Callable K)
  | default (i : I)
  | moveConstruct (i j : I)
  | moveAssign (i j : I)
  | reset (i : I)
  | invoke (i : I)
  | destroy (i : I)

namespace Family

variable {I K : Type}

def start : Family I K := ⟨fun _ => none, ⟨0, []⟩, []⟩

section Steps

variable [DecidableEq I] [DecidableEq K]

/-- A program does not construct an object that exists or use one that does not: such an action is
none. There is no result where the code does what the language gives no meaning to. -/
def step (s : Family I K) : FamilyAction I K → Option (Family I K)
  | .construct i func =>
      match s.objects i with
      | some _ => some s
      | none =>
        let (f, heap) := RawFunction.construct func s.heap
        some { s with objects := Function.update s.objects i (some f), heap := heap }
  | .default i =>
      match s.objects i with
      | some _ => some s
      | none => some { s with objects := Function.update s.objects i (some new) }
  | .moveConstruct i j =>
      match s.objects i, s.objects j with
      | none, some other => do
          let (f, other, heap) ← RawFunction.moveConstruct other s.heap
          return { s with
            objects := Function.update (Function.update s.objects i (some f)) j (some other)
            heap := heap }
      | _, _ => some s
  | .moveAssign i j =>
      match s.objects i, s.objects j with
      | some f, some other =>
          if i = j then some s
          else do
            let (f, other, heap) ← f.moveAssign other s.heap
            return { s with
              objects := Function.update (Function.update s.objects i (some f)) j (some other)
              heap := heap }
      | _, _ => some s
  | .reset i =>
      match s.objects i with
      | none => some s
      | some f => do
          let (f, heap) ← f.reset s.heap
          return { s with objects := Function.update s.objects i (some f), heap := heap }
  | .invoke i =>
      match s.objects i with
      | none => some s
      | some f => do
          let targets ← f.invoke
          return { s with called := s.called ++ targets }
  | .destroy i =>
      match s.objects i with
      | none => some s
      | some f => do
          let (_, heap) ← f.reset s.heap
          return { s with objects := Function.update s.objects i none, heap := heap }

def run (s : Family I K) : List (FamilyAction I K) → Option (Family I K)
  | [] => some s
  | a :: actions => (s.step a).bind fun s => s.run actions

end Steps

section Targets

variable {stored : I → Option (Target K)} {heap : Heap} {i j : I}

/-- The life of a target is on record: it is constructed, lives in one storage, and is destroyed. -/
structure Tracks (stored : I → Option (Target K)) (heap : Heap) : Prop where
  unborn : ∀ x, heap.next ≤ x → eventsAt heap.trace x = []
  alive : ∀ i t, stored i = some t →
    t.object < heap.next ∧ eventsAt heap.trace t.object = [.construct t.object]
  dead : ∀ x, x < heap.next → (∀ i t, stored i = some t → t.object ≠ x) →
    eventsAt heap.trace x = [.construct x, .destruct x]
  unique : ∀ i j t u, stored i = some t → stored j = some u → t.object = u.object → i = j

theorem tracks_start : Tracks (fun _ : I => (none : Option (Target K))) ⟨0, []⟩ where
  unborn x _ := rfl
  alive i t h := by cases h
  dead x hx := by cases hx
  unique i j t u h := by cases h

theorem eventsAt_construct (heap : Heap) (func : Callable K) (x : ℕ) :
    eventsAt (heap.construct func).2.trace x =
      eventsAt heap.trace x ++ if x = heap.next then [.construct x] else [] := by
  rw [Heap.construct, eventsAt_append]
  congr 1
  split
  · rename_i hx
    subst hx
    simp [eventsAt, Event.place]
  · rename_i hx
    simp [eventsAt, Event.place, Ne.symm hx]

theorem eventsAt_destruct (heap : Heap) (t : Target K) (x : ℕ) :
    eventsAt (heap.destruct t).trace x =
      eventsAt heap.trace x ++ if x = t.object then [.destruct x] else [] := by
  rw [Heap.destruct, eventsAt_append]
  congr 1
  split
  · rename_i hx
    subst hx
    simp [eventsAt, Event.place]
  · rename_i hx
    simp [eventsAt, Event.place, Ne.symm hx]

variable [DecidableEq I]

theorem update_some_cases {u : Target K} {o : Option (Target K)} {k : I}
    (h : Function.update stored i o k = some u) :
    (k = i ∧ o = some u) ∨ (k ≠ i ∧ stored k = some u) := by
  by_cases hk : k = i
  · subst hk
    rw [Function.update_self] at h
    exact Or.inl ⟨rfl, h⟩
  · rw [Function.update_of_ne hk] at h
    exact Or.inr ⟨hk, h⟩

/-- A new target goes where there is none. -/
theorem Tracks.construct (h : Tracks stored heap) (hi : stored i = none) (func : Callable K) :
    Tracks (Function.update stored i (some (heap.construct func).1)) (heap.construct func).2 where
  unborn x hx := by
    have hlt : heap.next + 1 ≤ x := hx
    rw [eventsAt_construct, h.unborn x (by omega), if_neg (by omega)]
    rfl
  alive k t ht := by
    rcases update_some_cases ht with ⟨-, heq⟩ | ⟨-, hk⟩
    · obtain rfl := Option.some.inj heq
      have hobject : (heap.construct func).1.object = heap.next := rfl
      refine ⟨Nat.lt_succ_self _, ?_⟩
      rw [hobject, eventsAt_construct, if_pos rfl, h.unborn heap.next le_rfl]
      rfl
    · obtain ⟨hlt, hevents⟩ := h.alive k t hk
      refine ⟨hlt.trans (Nat.lt_succ_self _), ?_⟩
      rw [eventsAt_construct, if_neg hlt.ne, hevents]
      rfl
  dead x hx hnone := by
    have hne : x ≠ heap.next := by
      intro heq
      exact hnone i _ (Function.update_self ..) heq.symm
    have hlt : x < heap.next + 1 := hx
    rw [eventsAt_construct, if_neg hne, List.append_nil]
    apply h.dead x (by omega)
    intro k t hk
    have hki : k ≠ i := by
      intro heq
      rw [heq, hi] at hk
      cases hk
    exact hnone k t (by rw [Function.update_of_ne hki, hk])
  unique k l t u ht hu heq := by
    have hobject : (heap.construct func).1.object = heap.next := rfl
    rcases update_some_cases ht with ⟨rfl, heq'⟩ | ⟨-, hk⟩
    · obtain rfl := Option.some.inj heq'
      rcases update_some_cases hu with ⟨rfl, -⟩ | ⟨-, hl⟩
      · rfl
      · have hlt := (h.alive l u hl).1
        omega
    · rcases update_some_cases hu with ⟨rfl, heq'⟩ | ⟨-, hl⟩
      · obtain rfl := Option.some.inj heq'
        have hlt := (h.alive k t hk).1
        omega
      · exact h.unique k l t u hk hl heq

theorem Tracks.destruct (h : Tracks stored heap) {t : Target K} (hi : stored i = some t) :
    Tracks (Function.update stored i none) (heap.destruct t) where
  unborn x hx := by
    have hlt := (h.alive i t hi).1
    have hle : heap.next ≤ x := hx
    rw [eventsAt_destruct, h.unborn x hle, if_neg (by omega)]
    rfl
  alive k u hu := by
    rcases update_some_cases hu with ⟨-, heq⟩ | ⟨hk, hu⟩
    · cases heq
    · obtain ⟨hlt, hevents⟩ := h.alive k u hu
      have hne : u.object ≠ t.object := fun heq => hk (h.unique k i u t hu hi heq)
      refine ⟨hlt, ?_⟩
      rw [eventsAt_destruct, if_neg hne, hevents]
      rfl
  dead x hx hnone := by
    by_cases hxt : x = t.object
    · subst hxt
      rw [eventsAt_destruct, if_pos rfl, (h.alive i t hi).2]
      rfl
    · rw [eventsAt_destruct, if_neg hxt, List.append_nil]
      apply h.dead x hx
      intro k u hk
      by_cases hki : k = i
      · subst hki
        rw [hi] at hk
        obtain rfl := Option.some.inj hk
        exact Ne.symm hxt
      · exact hnone k u (by rw [Function.update_of_ne hki, hk])
  unique k l u v hu hv := by
    rcases update_some_cases hu with ⟨-, heq⟩ | ⟨-, hu⟩
    · cases heq
    · rcases update_some_cases hv with ⟨-, heq⟩ | ⟨-, hv⟩
      · cases heq
      · exact h.unique k l u v hu hv

theorem Tracks.drop (h : Tracks stored heap) (i : I) :
    Tracks (Function.update stored i none) (heap.drop (stored i)) := by
  cases hi : stored i with
  | none =>
    have hsame : Function.update stored i none = stored := by
      rw [← hi, Function.update_eq_self]
    rw [hsame]
    exact h
  | some t => exact h.destruct hi

/-- The new target is constructed before the old one is destroyed. -/
theorem Tracks.move (h : Tracks stored heap) (hi : stored i = none) (hij : i ≠ j) :
    Tracks (Function.update (Function.update stored i (heap.move (stored j)).1) j none)
      (heap.move (stored j)).2 := by
  cases hj : stored j with
  | none =>
    have hfirst : Function.update stored i none = stored := by
      rw [← hi, Function.update_eq_self]
    have hsecond : Function.update stored j none = stored := by
      rw [← hj, Function.update_eq_self]
    simp only [Heap.move, hfirst, hsecond]
    exact h
  | some t =>
    apply (h.construct hi t.callable).destruct
    rw [Function.update_of_ne (Ne.symm hij), hj]

end Targets

section Objects

variable {objects : I → Option (RawFunction K)} {i : I}

def stored (objects : I → Option (RawFunction K)) (i : I) : Option (Target K) :=
  (objects i).bind RawFunction.mStorage

/-- The pointers of every object are those for its target, or null. -/
def Coherent (objects : I → Option (RawFunction K)) : Prop :=
  ∀ i f, objects i = some f → f = holding f.mStorage

theorem Coherent.stored_eq (h : Coherent objects) {f : RawFunction K} (hf : objects i = some f) :
    f = holding (stored objects i) := by
  rw [stored, hf, Option.bind_some]
  exact h i f hf

structure Sound (s : Family I K) : Prop where
  coherent : Coherent s.objects
  tracks : Tracks (stored s.objects) s.heap

/-- An empty family is in order. -/
theorem sound_start : Sound (start : Family I K) where
  coherent i f h := by cases h
  tracks := tracks_start

variable [DecidableEq I]

theorem stored_update (o : Option (RawFunction K)) : stored (Function.update objects i o) =
    Function.update (stored objects) i (o.bind RawFunction.mStorage) := by
  funext k
  by_cases hk : k = i
  · subst hk
    simp [stored]
  · simp [stored, Function.update_of_ne hk]

theorem Coherent.update (h : Coherent objects) (target : Option (Target K)) :
    Coherent (Function.update objects i (some (holding target))) := by
  intro k f hk
  by_cases hki : k = i
  · subst hki
    rw [Function.update_self] at hk
    obtain rfl := Option.some.inj hk
    rfl
  · rw [Function.update_of_ne hki] at hk
    exact h k f hk

theorem Coherent.erase (h : Coherent objects) : Coherent (Function.update objects i none) := by
  intro k f hk
  by_cases hki : k = i
  · subst hki
    rw [Function.update_self] at hk
    cases hk
  · rw [Function.update_of_ne hki] at hk
    exact h k f hk

end Objects

end Family

end CWrapper.RawFunction
