import CWrapper.FdRegistration

/-!
The addFdWatcher and removeFdWatcher calls of the callbacks, made one after the other. A watcher
is in mFdWatchers at their end if and only if it was there or was added, and each removal of it
was followed by an add that went through.
-/
namespace CWrapper.FdWatcher

open ObserverList Transition

inductive Call (W : Type)
  | add (watcher : Option W) (fd : ℤ) (refused : Bool)
  | remove (watcher : Option W) (fd : ℤ)
  deriving DecidableEq, Repr

def Call.action {W : Type} : Call W → Action W
  | .add watcher fd refused => .add watcher fd refused
  | .remove watcher fd => .remove watcher fd

variable {W : Type} [DecidableEq W] {w : ℕ} {s s' : State W w} {u : W}
  {calls : List (Call W)}

def State.make (s : State W w) : Call W → State W w
  | .add watcher fd refused => addFdWatcher s watcher fd refused
  | .remove watcher fd => removeFdWatcher s watcher fd

def State.makes (s : State W w) (calls : List (Call W)) : State W w := calls.foldl State.make s

/-- addFdWatcher is accepted by epoll, and the list has a free entry. -/
def State.admits (s : State W w) (fd : ℤ) (refused : Bool) : Bool :=
  0 ≤ fd && s.ctlAdds fd refused && s.mFdWatchers.occupied < kMaxFdWatcherSize

/-- One of the calls is an addFdWatcher of `u` that is accepted. -/
def Adds (s : State W w) (calls : List (Call W)) (u : W) : Prop :=
  ∃ before fd refused after, calls = before ++ .add (some u) fd refused :: after ∧
    (s.makes before).admits fd refused = true

/-- The watcher `u` is in the list, or is added by the calls, and each removal of it among the
calls is followed by an accepted add. -/
structure Undisturbed (s : State W w) (calls : List (Call W)) (u : W) : Prop where
  present : s.held u ∨ Adds s calls u
  restored : ∀ before fd after, calls = before ++ .remove (some u) fd :: after →
    Adds (s.makes (before ++ [.remove (some u) fd])) after u

@[simp] theorem makes_nil (s : State W w) : s.makes [] = s := rfl

@[simp] theorem makes_cons (s : State W w) (c : Call W) (calls : List (Call W)) :
    s.makes (c :: calls) = (s.make c).makes calls := rfl

theorem makes_append (s : State W w) (calls calls' : List (Call W)) :
    s.makes (calls ++ calls') = (s.makes calls).makes calls' := List.foldl_append ..

/-- After an add the list holds what it held, and the watcher if it was admitted. -/
theorem add_held (hq : s.mFdWatchers.Quiet) (u v : W) (fd : ℤ) (refused : Bool) :
    (addFdWatcher s (some u) fd refused).held v ↔
      s.held v ∨ v = u ∧ s.admits fd refused = true := by
  by_cases hepoll : 0 ≤ fd ∧ s.ctlAdds fd refused = true
  · obtain ⟨hfd, hctl⟩ := hepoll
    have hlist : (addFdWatcher s (some u) fd refused).mFdWatchers =
        (s.mFdWatchers.add (some u)).2 := by
      simp [addFdWatcher, hctl, not_lt.mpr hfd]
    have hadmits : s.admits fd refused = true ↔ s.mFdWatchers.occupied < kMaxFdWatcherSize := by
      simp [State.admits, hfd, hctl]
    rw [State.held, hlist, RawObserverList.add_contains_iff, hq.add_iff, hadmits]
    by_cases hu : s.mFdWatchers.contains (some u) = true
    · simp only [hu, Bool.true_eq_false, false_and, and_false, or_false]
      refine ⟨Or.inl, ?_⟩
      rintro (hv | ⟨rfl, -⟩)
      · exact hv
      · exact hu
    · rw [Bool.not_eq_true] at hu
      simp [State.held, hu]
  · have hsame : addFdWatcher s (some u) fd refused = s := by
      rw [not_and_or, not_le, Bool.not_eq_true] at hepoll
      rcases hepoll with hneg | hctl
      · simp [addFdWatcher, hneg]
      · simp [addFdWatcher, hctl]
    have hout : s.admits fd refused = false := by
      by_contra hin
      simp only [Bool.not_eq_false, State.admits, Bool.and_eq_true, decide_eq_true_eq] at hin
      exact hepoll hin.1
    simp [hsame, hout]

theorem make_quiet (hq : s.mFdWatchers.Quiet) (c : Call W) : (s.make c).mFdWatchers.Quiet := by
  cases c with
  | add watcher fd refused =>
    obtain heq | ⟨o, heq⟩ := add_mFdWatchers s watcher fd refused
    · rw [State.make, heq]
      exact hq
    · rw [State.make, heq]
      exact hq.add o
  | remove watcher fd =>
    rw [State.make, remove_mFdWatchers]
    exact hq.remove watcher

/-- What one call does for `u`. -/
theorem make_held (hq : s.mFdWatchers.Quiet) (c : Call W) : (s.make c).held u ↔
    (s.held u ∨ ∃ fd refused, c = .add (some u) fd refused ∧ s.admits fd refused = true) ∧
      ∀ fd, c ≠ .remove (some u) fd := by
  cases c with
  | add watcher fd refused =>
    cases watcher with
    | none => simp [State.make, addFdWatcher]
    | some v =>
      rw [State.make, add_held hq]
      simp only [Call.add.injEq, Option.some.injEq, ne_eq, reduceCtorEq, not_false_eq_true,
        implies_true, and_true]
      refine or_congr_right ⟨?_, ?_⟩
      · rintro ⟨rfl, hadmits⟩
        exact ⟨fd, refused, ⟨rfl, rfl, rfl⟩, hadmits⟩
      · rintro ⟨fd', refused', ⟨rfl, rfl, rfl⟩, hadmits⟩
        exact ⟨rfl, hadmits⟩
  | remove watcher fd =>
    cases watcher with
    | none => simp [State.make, removeFdWatcher]
    | some v =>
      have hremove : (s.make (.remove (some v) fd)).held u ↔ s.held u ∧ u ≠ v :=
        hq.remove_contains_iff
      rw [hremove]
      constructor
      · rintro ⟨hheld, hne⟩
        refine ⟨Or.inl hheld, fun fd heq => ?_⟩
        cases heq
        exact hne rfl
      · rintro ⟨hheld | ⟨fd, refused, heq, -⟩, hno⟩
        · refine ⟨hheld, ?_⟩
          rintro rfl
          exact hno _ rfl
        · cases heq

theorem adds_cons (c : Call W) : Adds s (c :: calls) u ↔
    (∃ fd refused, c = .add (some u) fd refused ∧ s.admits fd refused = true) ∨
      Adds (s.make c) calls u := by
  constructor
  · rintro ⟨before, fd, refused, after, heq, hadmits⟩
    cases before with
    | nil =>
      obtain ⟨rfl, rfl⟩ := List.cons.inj heq
      exact Or.inl ⟨fd, refused, rfl, hadmits⟩
    | cons d before =>
      obtain ⟨rfl, rfl⟩ := List.cons.inj heq
      exact Or.inr ⟨before, fd, refused, after, rfl, hadmits⟩
  · rintro (⟨fd, refused, rfl, hadmits⟩ | ⟨before, fd, refused, after, rfl, hadmits⟩)
    · exact ⟨[], fd, refused, calls, rfl, hadmits⟩
    · exact ⟨c :: before, fd, refused, after, rfl, hadmits⟩

theorem undisturbed_cons (hq : s.mFdWatchers.Quiet) (c : Call W) :
    Undisturbed s (c :: calls) u ↔ Undisturbed (s.make c) calls u := by
  constructor
  · rintro ⟨hpresent, hrestored⟩
    refine ⟨?_, fun before fd after heq => hrestored (c :: before) fd after (by rw [heq]; rfl)⟩
    by_cases hremove : ∃ fd, c = .remove (some u) fd
    · obtain ⟨fd, rfl⟩ := hremove
      exact Or.inr (hrestored [] fd calls rfl)
    · rw [adds_cons] at hpresent
      rw [make_held hq]
      obtain hheld | hadd | hadds := hpresent
      · exact Or.inl ⟨Or.inl hheld, fun fd heq => hremove ⟨fd, heq⟩⟩
      · exact Or.inl ⟨Or.inr hadd, fun fd heq => hremove ⟨fd, heq⟩⟩
      · exact Or.inr hadds
  · rintro ⟨hpresent, hrestored⟩
    rw [make_held hq] at hpresent
    refine ⟨?_, fun before fd after heq => ?_⟩
    · rw [adds_cons]
      obtain ⟨hheld | hadd, -⟩ | hadds := hpresent
      · exact Or.inl hheld
      · exact Or.inr (Or.inl hadd)
      · exact Or.inr (Or.inr hadds)
    · cases before with
      | nil =>
        obtain ⟨rfl, rfl⟩ := List.cons.inj heq
        obtain ⟨-, hno⟩ | hadds := hpresent
        · exact absurd rfl (hno fd)
        · exact hadds
      | cons d before =>
        obtain ⟨rfl, rfl⟩ := List.cons.inj heq
        exact hrestored before fd after rfl

/-- The calls leave a watcher in the list if and only if they do not disturb it. -/
theorem makes_held (hq : s.mFdWatchers.Quiet) : (s.makes calls).held u ↔ Undisturbed s calls u := by
  induction calls generalizing s with
  | nil =>
    constructor
    · exact fun h => ⟨Or.inl h, by simp⟩
    · rintro ⟨hheld | ⟨before, fd, refused, after, heq, -⟩, -⟩
      · exact hheld
      · simp at heq
  | cons c calls ih => rw [makes_cons, ih (make_quiet hq c), undisturbed_cons hq]

/-- The calls of a callback do not look at where loopOnce is. -/
theorem make_point (s : State W w) (p : LoopPoint W) (c : Call W) :
    { s with point := p }.make c = { s.make c with point := p } := by
  cases c with
  | add watcher fd refused =>
    cases watcher with
    | none => rfl
    | some u =>
      by_cases hneg : fd < 0
      · simp [State.make, addFdWatcher, hneg]
      · cases hctl : s.ctlAdds fd refused with
        | true =>
          have hctl' : State.ctlAdds { s with point := p } fd refused = true := hctl
          simp [State.make, addFdWatcher, hneg, hctl, hctl']
        | false =>
          have hctl' : State.ctlAdds { s with point := p } fd refused = false := hctl
          simp [State.make, addFdWatcher, hneg, hctl, hctl']
  | remove watcher fd => cases watcher <;> rfl

theorem makes_point (s : State W w) (p : LoopPoint W) (calls : List (Call W)) :
    { s with point := p }.makes calls = { s.makes calls with point := p } := by
  induction calls generalizing s with
  | nil => rfl
  | cons c calls ih => rw [makes_cons, make_point, ih, makes_cons]

theorem step_call {c : Call W} (hstep : step s c.action = some s') : s' = s.make c := by
  cases c with
  | add watcher fd refused =>
    exact (Option.some.inj (Option.ite_none_right_eq_some.mp hstep).2).symm
  | remove watcher fd => exact (Option.some.inj (Option.ite_none_right_eq_some.mp hstep).2).symm

/-- epoll_wait changes nothing but what loopOnce has to work through. -/
theorem step_batch {fds : List (ℤ × Bool)} (hstep : step s (.epoll (.events fds)) = some s') :
    s' = { s with point := .events (s.batch fds) } := by
  simp only [step] at hstep
  split at hstep
  · simp only [epollStep, Option.ite_none_right_eq_some] at hstep
    exact (Option.some.inj hstep.2).symm
  · cases hstep

/-- The calls that a callback makes determine the registrations that it leaves. -/
theorem calls_path (hpath : (system W w).Path Machine.anyStep s (calls.map Call.action) s') :
    s' = s.makes calls := by
  induction calls generalizing s with
  | nil =>
    cases hpath
    rfl
  | cons c calls ih =>
    cases hpath with
    | cons _ hstep hrest => rw [ih hrest, step_call hstep, makes_cons]

end CWrapper.FdWatcher
