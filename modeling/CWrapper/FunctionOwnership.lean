import CWrapper.FunctionFamily

/-!
FixedFunctions own their targets: what every action keeps, and what follows for whole runs.
-/
namespace CWrapper.RawFunction.Family

open Lifetimes

variable {I K : Type} {s : Family I K}

section Owners

def Holds (s : Family I K) (i : I) (x : ℕ) : Prop :=
  ∃ f t, s.objects i = some f ∧ f.mStorage = some t ∧ t.object = x

theorem holds_iff {i : I} {x : ℕ} :
    s.Holds i x ↔ ∃ t, stored s.objects i = some t ∧ t.object = x := by
  constructor
  · intro hholds
    obtain ⟨f, t, hf, ht, hx⟩ := hholds
    exact ⟨t, by rw [stored, hf, Option.bind_some, ht], hx⟩
  · intro hstored
    obtain ⟨t, ht, hx⟩ := hstored
    obtain ⟨f, hf, hstorage⟩ := Option.bind_eq_some_iff.mp ht
    exact ⟨f, t, hf, hstorage, hx⟩

/-- A target is live as long as an object holds it. -/
theorem Sound.live_iff (h : Sound s) (x : ℕ) : Live s.heap.trace x ↔ ∃ i, s.Holds i x := by
  simp only [holds_iff]
  constructor
  · intro hlive
    by_contra hnone
    have hevents : eventsAt s.heap.trace x = [] ∨
        eventsAt s.heap.trace x = [.construct x, .destruct x] := by
      rcases Nat.lt_or_ge x s.heap.next with hlt | hge
      · exact Or.inr (h.tracks.dead x hlt fun i t hi hx => hnone ⟨i, t, hi, hx⟩)
      · exact Or.inl (h.tracks.unborn x hge)
    rcases hevents with heq | heq
    · simp [Live, heq] at hlive
    · simp [Live, heq] at hlive
  · intro hstored
    obtain ⟨i, t, hi, rfl⟩ := hstored
    rw [Live, (h.tracks.alive i t hi).2]
    rfl

end Owners

variable [DecidableEq I] [DecidableEq K]

section Steps

variable (h : Sound s) {i j : I}
include h

theorem Sound.construct (hi : s.objects i = none) (func : Callable K) :
    ∃ s', s.step (.construct i func) = some s' ∧ Sound s' := by
  simp only [step, hi, construct_eq]
  refine ⟨_, rfl, h.coherent.update _, ?_⟩
  rw [stored_update]
  apply h.tracks.construct
  rw [stored, hi, Option.bind_none]

theorem Sound.default (hi : s.objects i = none) :
    ∃ s', s.step (.default i) = some s' ∧ Sound s' := by
  simp only [step, hi, new_eq]
  refine ⟨_, rfl, h.coherent.update _, ?_⟩
  have hsame : Function.update (stored s.objects) i none = stored s.objects := by
    have hnone : stored s.objects i = none := by rw [stored, hi, Option.bind_none]
    rw [← hnone, Function.update_eq_self]
  rw [stored_update]
  show Tracks (Function.update (stored s.objects) i none) s.heap
  rw [hsame]
  exact h.tracks

theorem Sound.moveConstruct {other : RawFunction K} (hi : s.objects i = none)
    (hj : s.objects j = some other) :
    ∃ s', s.step (.moveConstruct i j) = some s' ∧ Sound s' := by
  have hij : i ≠ j := by
    intro heq
    rw [heq, hj] at hi
    cases hi
  have hmove := move_from_holding (stored s.objects j) s.heap
  simp only [step, hi, hj, RawFunction.moveConstruct, h.coherent.stored_eq hj, new_eq, hmove]
  refine ⟨_, rfl, (h.coherent.update _).update _, ?_⟩
  rw [stored_update, stored_update]
  apply h.tracks.move _ hij
  rw [stored, hi, Option.bind_none]

/-- A move assignment destroys the target it replaces, and takes over that of the other object. -/
theorem Sound.moveAssign {f other : RawFunction K} (hi : s.objects i = some f)
    (hj : s.objects j = some other) :
    ∃ s', s.step (.moveAssign i j) = some s' ∧ Sound s' := by
  by_cases hij : i = j
  · exact ⟨s, by simp [step, hj, hij], h⟩
  · have hmove := moveAssign_holding (stored s.objects i) (stored s.objects j) s.heap
    simp only [step, hi, hj, if_neg hij, h.coherent.stored_eq hi, h.coherent.stored_eq hj, hmove]
    refine ⟨_, rfl, (h.coherent.update _).update _, ?_⟩
    rw [stored_update, stored_update]
    have hdropped := (h.tracks.drop i).move (i := i) (j := j) (Function.update_self ..) hij
    rw [Function.update_of_ne (Ne.symm hij), Function.update_idem] at hdropped
    exact hdropped

theorem Sound.reset {f : RawFunction K} (hi : s.objects i = some f) :
    ∃ s', s.step (.reset i) = some s' ∧ Sound s' := by
  have hreset := reset_holding (stored s.objects i) s.heap
  simp only [step, hi, h.coherent.stored_eq hi, hreset]
  refine ⟨_, rfl, h.coherent.update _, ?_⟩
  rw [stored_update]
  exact h.tracks.drop i

/-- The destructor destroys the target of the object, if it has one. -/
theorem Sound.destroy {f : RawFunction K} (hi : s.objects i = some f) :
    ∃ s', s.step (.destroy i) = some s' ∧ Sound s' := by
  have hreset := reset_holding (stored s.objects i) s.heap
  simp only [step, hi, h.coherent.stored_eq hi, hreset]
  refine ⟨_, rfl, h.coherent.erase, ?_⟩
  rw [stored_update]
  exact h.tracks.drop i

theorem Sound.invoke {f : RawFunction K} (hi : s.objects i = some f) :
    s.step (.invoke i) = some { s with called := s.called ++ f.mStorage.toList } := by
  have hinvoke := invoke_holding (stored s.objects i)
  simp only [step, hi, h.coherent.stored_eq hi, hinvoke]
  rfl

/-- An action on the family is defined, and leaves every target with one owner. -/
theorem Sound.step (a : FamilyAction I K) : ∃ s', s.step a = some s' ∧ Sound s' := by
  cases a with
  | construct i func =>
    cases hi : s.objects i with
    | none => exact h.construct hi func
    | some f => exact ⟨s, by simp [Family.step, hi], h⟩
  | default i =>
    cases hi : s.objects i with
    | none => exact h.default hi
    | some f => exact ⟨s, by simp [Family.step, hi], h⟩
  | moveConstruct i j =>
    cases hi : s.objects i with
    | none =>
      cases hj : s.objects j with
      | none => exact ⟨s, by simp [Family.step, hi, hj], h⟩
      | some other => exact h.moveConstruct hi hj
    | some f => exact ⟨s, by simp [Family.step, hi], h⟩
  | moveAssign i j =>
    cases hi : s.objects i with
    | none => exact ⟨s, by simp [Family.step, hi], h⟩
    | some f =>
      cases hj : s.objects j with
      | none => exact ⟨s, by simp [Family.step, hi, hj], h⟩
      | some other => exact h.moveAssign hi hj
  | reset i =>
    cases hi : s.objects i with
    | none => exact ⟨s, by simp [Family.step, hi], h⟩
    | some f => exact h.reset hi
  | invoke i =>
    cases hi : s.objects i with
    | none => exact ⟨s, by simp [Family.step, hi], h⟩
    | some f => exact ⟨_, h.invoke hi, h.coherent, h.tracks⟩
  | destroy i =>
    cases hi : s.objects i with
    | none => exact ⟨s, by simp [Family.step, hi], h⟩
    | some f => exact h.destroy hi

/-- By induction over the actions of a program. -/
theorem Sound.run (actions : List (FamilyAction I K)) :
    ∃ s', s.run actions = some s' ∧ Sound s' := by
  induction actions generalizing s with
  | nil => exact ⟨s, rfl, h⟩
  | cons a actions ih =>
    obtain ⟨t, hstep, ht⟩ := h.step a
    obtain ⟨s', hrun, hs'⟩ := ih ht
    exact ⟨s', by rw [Family.run, hstep, Option.bind_some, hrun], hs'⟩

end Steps

section Ownership

/-- The pointers of an object are null or all made for one type; a live target is in exactly one
object, and an object is true when it holds one; invoke calls the target that is held; and once no
object is left, every target that was ever constructed has been destroyed, once. -/
structure Linear (s : Family I K) : Prop where
  pointers : ∀ i f, s.objects i = some f →
    f.mFnDestructor = f.mFnInvoker ∧ f.mFnMover = f.mFnInvoker
  one_owner : ∀ x, Live s.heap.trace x → ∃! i, s.Holds i x
  toBool_iff : ∀ i f, s.objects i = some f →
    (f.toBool = true ↔ ∃ x, Live s.heap.trace x ∧ s.Holds i x)
  invoke : ∀ i f, s.objects i = some f →
    s.step (.invoke i) = some { s with called := s.called ++ f.mStorage.toList }
  all_destroyed : (∀ i, s.objects i = none) → ∀ x, .construct x ∈ s.heap.trace →
    eventsAt s.heap.trace x = [.construct x, .destruct x]

/-- A family in order has each of the properties of `Linear`. -/
theorem Sound.linear (h : Sound s) : Linear s where
  pointers i f hi := by
    rw [h.coherent i f hi]
    exact ⟨rfl, rfl⟩
  one_owner x hx := by
    obtain ⟨i, hi⟩ := (h.live_iff x).mp hx
    refine ⟨i, hi, fun j hj => ?_⟩
    obtain ⟨t, ht, rfl⟩ := holds_iff.mp hi
    obtain ⟨u, hu, heq⟩ := holds_iff.mp hj
    exact h.tracks.unique j i u t hu ht heq
  toBool_iff i f hi := by
    rw [h.coherent i f hi, toBool_holding, Option.isSome_iff_exists]
    constructor
    · intro hstored
      obtain ⟨t, ht⟩ := hstored
      have hholds : s.Holds i t.object := ⟨f, t, hi, ht, rfl⟩
      exact ⟨t.object, (h.live_iff t.object).mpr ⟨i, hholds⟩, hholds⟩
    · intro hlive
      obtain ⟨x, -, g, t, hg, ht, -⟩ := hlive
      obtain rfl := Option.some.inj (hi.symm.trans hg)
      exact ⟨t, ht⟩
  invoke i f hi := h.invoke hi
  all_destroyed hgone x hx := by
    have hborn : x < s.heap.next := by
      by_contra hle
      have hnone := h.tracks.unborn x (not_lt.mp hle)
      rw [eventsAt, List.filter_eq_nil_iff] at hnone
      simpa [Event.place] using hnone _ hx
    apply h.tracks.dead x hborn
    intro i t hi
    rw [stored, hgone i] at hi
    cases hi

/-- Whatever a program does with FixedFunctions, the code never does what has no meaning, and each
target has one owner from its construction to its one destruction. -/
theorem targets_owned (actions : List (FamilyAction I K)) :
    ∃ s : Family I K, start.run actions = some s ∧ Linear s := by
  obtain ⟨s, hrun, hs⟩ := sound_start.run actions
  exact ⟨s, hrun, hs.linear⟩

end Ownership

end CWrapper.RawFunction.Family
