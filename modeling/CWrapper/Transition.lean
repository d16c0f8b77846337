import Mathlib.Data.Option.Basic

/-!
Machines with a partial step function, and what holds along their runs. An action names who moves
and how the environment answers; `none` means that the action is not enabled. A path carries a
condition on its steps, so that a property which only holds while every step is of a certain kind is
stated about such runs. A machine may have an observer that writes down what its steps do, and may
have another machine as a part. Objects that one caller at a time uses are compared with what they
are specified to do.
-/
namespace CWrapper.Transition

structure Machine (S A : Type*) where
  initial : S → Prop
  step : S → A → Option S

namespace Machine

section Runs

variable {S A : Type*} (M : Machine S A)

/-- The condition on steps that admits every step. -/
def anyStep : S → A → Prop := fun _ _ => True

instance (s : S) (a : A) : Decidable (anyStep s a) := isTrue trivial

inductive Path (ok : S → A → Prop) : S → List A → S → Prop
  | nil (s : S) : Path ok s [] s
  | cons {s s' s'' : S} {a : A} {as : List A} :
      ok s a → M.step s a = some s' → Path ok s' as s'' → Path ok s (a :: as) s''

def Reachable (ok : S → A → Prop) (s : S) : Prop :=
  ∃ s₀ as, M.initial s₀ ∧ M.Path ok s₀ as s

/-- Execute a list of actions; `none` when one of them is not enabled or not admitted. -/
def run (ok : S → A → Prop) [∀ s a, Decidable (ok s a)] : S → List A → Option S
  | s, [] => some s
  | s, a :: as => if ok s a then (M.step s a).bind fun s' => run ok s' as else none

def after (ok : S → A → Prop) [∀ s a, Decidable (ok s a)] (s : S) (as : List A) : S :=
  (M.run ok s as).getD s

def next (s : S) (a : A) : S := (M.step s a).getD s

/-- `I` holds at the start and every admitted step keeps it where `J` holds too. -/
structure Invariant (ok : S → A → Prop) (J I : S → Prop) : Prop where
  init : ∀ s, M.initial s → I s
  step : ∀ s a s', ok s a → J s → M.step s a = some s' → I s → I s'

variable {M} {ok : S → A → Prop} {I J : S → Prop}

theorem Path.append {s s' s'' : S} {as bs : List A}
    (h : M.Path ok s as s') (h' : M.Path ok s' bs s'') : M.Path ok s (as ++ bs) s'' := by
  induction h with
  | nil s => exact h'
  | cons hok hstep _ ih => exact .cons hok hstep (ih h')

theorem Path.single {s s' : S} {a : A} (ha : ok s a) (hstep : M.step s a = some s') :
    M.Path ok s [a] s' :=
  .cons ha hstep (.nil s')

theorem Path.of_run [∀ s a, Decidable (ok s a)] {s s' : S} {as : List A}
    (h : M.run ok s as = some s') : M.Path ok s as s' := by
  induction as generalizing s with
  | nil =>
    cases Option.some.inj h
    exact .nil _
  | cons a as ih =>
    unfold run at h
    split at h
    · rename_i ha
      obtain ⟨t, hstep, hrest⟩ := Option.bind_eq_some_iff.mp h
      exact .cons ha hstep (ih hrest)
    · cases h

/-- A run from a reachable state ends in one. -/
theorem Reachable.path {s s' : S} {as : List A}
    (h : M.Reachable ok s) (hp : M.Path ok s as s') : M.Reachable ok s' := by
  obtain ⟨s₀, bs, hinit, hbs⟩ := h
  exact ⟨s₀, bs ++ as, hinit, hbs.append hp⟩

theorem Reachable.step {s s' : S} {a : A} (h : M.Reachable ok s) (ha : ok s a)
    (hstep : M.step s a = some s') : M.Reachable ok s' :=
  h.path (Path.single ha hstep)

theorem eq_some_getD {α : Type*} {o : Option α} (h : o.isSome = true) (x : α) :
    o = some (o.getD x) := by
  obtain ⟨y, rfl⟩ := Option.isSome_iff_exists.mp h
  rfl

theorem step_next {s : S} {a : A} (h : (M.step s a).isSome = true) :
    M.step s a = some (M.next s a) := eq_some_getD h s

theorem path_after [∀ s a, Decidable (ok s a)] {s : S} {as : List A}
    (h : (M.run ok s as).isSome = true) : M.Path ok s as (M.after ok s as) :=
  Path.of_run (eq_some_getD h s)

theorem reachable_after [∀ s a, Decidable (ok s a)] {s : S} {as : List A} (hs : M.initial s)
    (h : (M.run ok s as).isSome = true) : M.Reachable ok (M.after ok s as) :=
  ⟨s, as, hs, path_after h⟩

/-- What every admitted step keeps, a path keeps. -/
theorem Path.keeps {s s' : S} {as : List A} (h : M.Path ok s as s')
    (hI : ∀ s a s', ok s a → M.step s a = some s' → I s → I s') (hi : I s) : I s' := by
  induction h with
  | nil s => exact hi
  | cons ha hstep _ ih => exact ih (hI _ _ _ ha hstep hi)

/-- The induction on reachability, which every invariant goes through. -/
theorem Invariant.reachable (h : M.Invariant ok J I) (hJ : ∀ s, M.Reachable ok s → J s)
    {s : S} (hs : M.Reachable ok s) : I s := by
  obtain ⟨s₀, as, hinit, has⟩ := hs
  have hreach : M.Reachable ok s₀ := ⟨s₀, [], hinit, .nil s₀⟩
  have hi : I s₀ := h.init s₀ hinit
  clear hinit
  induction has with
  | nil s => exact hi
  | cons ha hstep _ ih =>
    exact ih (hreach.step ha hstep) (h.step _ _ _ ha (hJ _ hreach) hstep hi)

/-- The induction over runs for an invariant that relies on nothing else. -/
theorem Invariant.always (h : M.Invariant ok (fun _ => True) I)
    {s : S} (hs : M.Reachable ok s) : I s :=
  h.reachable (fun _ _ => trivial) hs

end Runs

section Splits

variable {S A : Type*} {M : Machine S A} {ok : S → A → Prop} {s s' t : S} {as bs : List A} {a : A}

theorem Path.any (h : M.Path ok s as s') : M.Path anyStep s as s' := by
  induction h with
  | nil s => exact .nil s
  | cons _ hstep _ ih => exact .cons trivial hstep ih

/-- The actions determine the run. -/
theorem Path.unique (h : M.Path ok s as s') (h' : M.Path Machine.anyStep s as t) : s' = t := by
  induction h with
  | nil s =>
    cases h'
    rfl
  | cons _ hstep _ ih =>
    cases h' with
    | cons _ hstep' hrest =>
      rw [hstep] at hstep'
      obtain rfl := Option.some.inj hstep'
      exact ih hrest

theorem Path.split (h : M.Path ok s (as ++ bs) s') :
    ∃ t, M.Path ok s as t ∧ M.Path ok t bs s' := by
  induction as generalizing s with
  | nil => exact ⟨s, .nil s, h⟩
  | cons a as ih =>
    cases h with
    | cons ha hstep hrest =>
      obtain ⟨t, has, hbs⟩ := ih hrest
      exact ⟨t, .cons ha hstep has, hbs⟩

theorem Path.last (h : M.Path ok s (as ++ [a]) s') :
    ∃ t, M.Path ok s as t ∧ ok t a ∧ M.step t a = some s' := by
  obtain ⟨t, has, hlast⟩ := h.split
  cases hlast with
  | cons ha hstep hnil =>
    cases hnil
    exact ⟨t, has, ha, hstep⟩

/-- A run whose every step meets a condition, wherever the run is cut before it. -/
theorem Path.of_splits (h : M.Path Machine.anyStep s as s')
    (hok : ∀ xs a ys t, as = xs ++ a :: ys → M.Path Machine.anyStep s xs t → ok t a) :
    M.Path ok s as s' := by
  induction h with
  | nil s => exact .nil s
  | @cons s t s' a as _ hstep _ ih =>
    refine .cons (hok [] a as s rfl (.nil s)) hstep (ih fun xs b ys u heq hxs => ?_)
    exact hok (a :: xs) b ys u (by rw [heq]; rfl) (.cons trivial hstep hxs)

end Splits

section Records

variable {S A H : Type*}

/-- `note s a s' h` is the record `h` after the step of `a` from `s` to `s'`. -/
def recorded (M : Machine S A) (start : H) (note : S → A → S → H → H) : Machine (S × H) A where
  initial p := M.initial p.1 ∧ p.2 = start
  step p a := (M.step p.1 a).map fun s' => (s', note p.1 a s' p.2)

/-- Every step with this action leads to a state with the property. -/
def leadsTo (M : Machine S A) (P : S → Prop) (s : S) (a : A) : Prop :=
  ∀ s', M.step s a = some s' → P s'

variable {M : Machine S A} {start : H} {note : S → A → S → H → H} {ok ok' : S → A → Prop}

theorem leadsTo_iff {P : S → Prop} {s s' : S} {a : A} (hstep : M.step s a = some s') :
    M.leadsTo P s a ↔ P s' := by
  constructor
  · exact fun h => h s' hstep
  · intro h t ht
    rwa [← Option.some.inj (hstep.symm.trans ht)]

/-- A recorded step is a step, with the record that goes with it. -/
theorem recorded_step_iff {p q : S × H} {a : A} : (M.recorded start note).step p a = some q ↔
    M.step p.1 a = some q.1 ∧ q.2 = note p.1 a q.1 p.2 := by
  constructor
  · intro h
    obtain ⟨s', hs', rfl⟩ := Option.map_eq_some_iff.mp h
    exact ⟨hs', rfl⟩
  · rintro ⟨hstep, hnote⟩
    exact Option.map_eq_some_iff.mpr ⟨q.1, hstep, Prod.ext rfl hnote.symm⟩

/-- A run with a record is a run. -/
theorem Path.forget {okR : S × H → A → Prop} {p q : S × H} {as : List A}
    (h : (M.recorded start note).Path okR p as q) : M.Path anyStep p.1 as q.1 := by
  induction h with
  | nil p => exact .nil p.1
  | cons _ hstep _ ih => exact .cons trivial (recorded_step_iff.mp hstep).1 ih

theorem Reachable.forget {okR : S × H → A → Prop} {p : S × H}
    (h : (M.recorded start note).Reachable okR p) : M.Reachable anyStep p.1 := by
  obtain ⟨p₀, as, hinit, hpath⟩ := h
  exact ⟨p₀.1, as, hinit.1, hpath.forget⟩

/-- Two conditions admit the same runs when they agree as long as the run has kept to one. -/
theorem path_congr {I : S → Prop}
    (hI : ∀ s a s', ok s a → M.step s a = some s' → I s → I s')
    (hok : ∀ s a s', I s → M.step s a = some s' → (ok s a ↔ ok' s a))
    {s s' : S} {as : List A} (hs : I s) : M.Path ok s as s' ↔ M.Path ok' s as s' := by
  constructor
  · intro h
    induction h with
    | nil s => exact .nil s
    | cons ha hstep _ ih =>
      exact .cons ((hok _ _ _ hs hstep).mp ha) hstep (ih (hI _ _ _ ha hstep hs))
  · intro h
    induction h with
    | nil s => exact .nil s
    | cons ha hstep _ ih =>
      have ha' := (hok _ _ _ hs hstep).mpr ha
      exact .cons ha' hstep (ih (hI _ _ _ ha' hstep hs))

end Records

section Parts

variable {S A T B : Type*}

/-- The part `π` of the states of `M` moves as `N` does, with steps that `okN` admits. -/
structure Part (M : Machine S A) (N : Machine T B) (ok : S → A → Prop) (okN : T → B → Prop)
    (π : S → T) : Prop where
  init : ∀ s, M.initial s → N.initial (π s)
  step : ∀ s a s', M.Reachable ok s → ok s a → M.step s a = some s' →
    π s' = π s ∨ ∃ b, okN (π s) b ∧ N.step (π s) b = some (π s')

variable {M : Machine S A} {N : Machine T B} {ok : S → A → Prop} {okN : T → B → Prop} {π : S → T}

/-- A run of the whole gives a run of the part. -/
theorem Part.path (h : Part M N ok okN π) {s s' : S} {as : List A} (hs : M.Reachable ok s)
    (hpath : M.Path ok s as s') : ∃ bs, N.Path okN (π s) bs (π s') := by
  induction hpath with
  | nil s => exact ⟨[], .nil _⟩
  | cons ha hstep _ ih =>
    obtain ⟨bs, hbs⟩ := ih (hs.step ha hstep)
    obtain hsame | ⟨b, hb, hN⟩ := h.step _ _ _ hs ha hstep
    · exact ⟨bs, hsame ▸ hbs⟩
    · exact ⟨b :: bs, .cons hb hN hbs⟩

/-- The part of a reachable state is reachable. -/
theorem Part.reachable (h : Part M N ok okN π) {s : S} (hs : M.Reachable ok s) :
    N.Reachable okN (π s) := by
  obtain ⟨s₀, as, hinit, has⟩ := hs
  obtain ⟨bs, hbs⟩ := h.path ⟨s₀, [], hinit, .nil s₀⟩ has
  exact ⟨π s₀, bs, h.init s₀ hinit, hbs⟩

end Parts

end Machine

end CWrapper.Transition

namespace CWrapper.Simulation

structure Object (S A R : Type*) where
  initial : S
  apply : S → A → Option (R × S)

structure Specification (M A R : Type*) where
  initial : M
  apply : M → A → R × M

variable {S M A R : Type*}

/-- The results of a sequence of operations, and the state it ends in. -/
def Object.run (o : Object S A R) : S → List A → Option (List R × S)
  | s, [] => some ([], s)
  | s, a :: as => do
      let (r, s') ← o.apply s a
      let (rs, s'') ← o.run s' as
      return (r :: rs, s'')

def Specification.run (m : Specification M A R) : M → List A → List R × M
  | x, [] => ([], x)
  | x, a :: as =>
      let (r, x') := m.apply x a
      let (rs, x'') := m.run x' as
      (r :: rs, x'')

/-- Related states answer alike and stay related. -/
structure Implements (o : Object S A R) (m : Specification M A R) (rel : S → M → Prop) :
    Prop where
  initial : rel o.initial m.initial
  apply : ∀ s x a, rel s x →
    ∃ s', o.apply s a = some ((m.apply x a).1, s') ∧ rel s' (m.apply x a).2

variable {o : Object S A R} {m : Specification M A R} {rel : S → M → Prop}

theorem Implements.run_from (h : Implements o m rel) (as : List A) {s : S} {x : M}
    (hs : rel s x) : ∃ s', o.run s as = some ((m.run x as).1, s') ∧ rel s' (m.run x as).2 := by
  induction as generalizing s x with
  | nil => exact ⟨s, rfl, hs⟩
  | cons a as ih =>
    obtain ⟨t, ht, hrel⟩ := h.apply s x a hs
    obtain ⟨s', hs', hrel'⟩ := ih hrel
    refine ⟨s', ?_, hrel'⟩
    simp only [Object.run, ht, hs', Option.bind_eq_bind, Option.bind_some, Specification.run]
    rfl

/-- No operation of a sequence is without meaning, and all answer as specified. -/
theorem Implements.run (h : Implements o m rel) (as : List A) :
    ∃ s, o.run o.initial as = some ((m.run m.initial as).1, s) ∧
      rel s (m.run m.initial as).2 :=
  h.run_from as h.initial

end CWrapper.Simulation
