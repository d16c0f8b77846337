import Mathlib.Data.Nat.Notation

/-!
Platform.h. init puts a handler in the place of what the process does on SIGINT and SIGTERM,
deinit puts back what was there. Installing can fail for either signal, and the callback of the
caller can refuse; putting back what was there does not fail.
-/
namespace CWrapper.Platform

/-- What the process does on a signal: call _sig_handler, or anything else. -/
inductive Disposition (D : Type)
  | handler
  | foreign (d : D)
  deriving DecidableEq, Repr

/-- A Platform and what it changes in its process. -/
structure State (L D Cb : Type) where
  sInstantiated : Bool
  sLoop : Option L
  sigint : Disposition D
  sigterm : Disposition D
  mSignalInstalled : Bool
  mOldInt : Disposition D
  mOldTerm : Disposition D
  mDeinitCallback : Option Cb

/-- A call of init brings the answers of its environment: whether sigaction succeeds for SIGINT
and for SIGTERM, and what initCb returns if there is one. -/
inductive Call (Cb : Type)
  | init (intOk termOk : Bool) (initCb : Option Bool) (deinitCb : Option Cb)
  | deinit

inductive Action (Cb : Type)
  | call (c : Call Cb)
  | destructor

/-- What init returns, and the callback that ran. -/
structure Outcome (Cb : Type) where
  returned : Bool
  ran : Option Cb

variable {L D Cb : Type}

/-- The constructor, in a process that has no Platform. `zero` is what an all-zero sigaction
stands for. -/
def construct (loop : L) (zero sigint sigterm : D) : State L D Cb where
  sInstantiated := true
  sLoop := some loop
  sigint := .foreign sigint
  sigterm := .foreign sigterm
  mSignalInstalled := false
  mOldInt := .foreign zero
  mOldTerm := .foreign zero
  mDeinitCallback := none

namespace State

def installSignal (intOk termOk : Bool) (s : State L D Cb) : Bool × State L D Cb :=
  if intOk = false then (false, s)
  else
    let s := { s with mOldInt := s.sigint, sigint := .handler }
    if termOk = false then (false, { s with sigint := s.mOldInt })
    else (true, { s with mOldTerm := s.sigterm, sigterm := .handler })

def removeSignal (s : State L D Cb) : State L D Cb :=
  { s with sigint := s.mOldInt, sigterm := s.mOldTerm }

def init (intOk termOk : Bool) (initCb : Option Bool) (deinitCb : Option Cb)
    (s : State L D Cb) : Bool × State L D Cb :=
  if s.mSignalInstalled then (true, s)
  else
    match s.installSignal intOk termOk with
    | (false, s) => (false, s)
    | (true, s) =>
      let s := { s with mSignalInstalled := true }
      if initCb = some false then (false, { s.removeSignal with mSignalInstalled := false })
      else (true, { s with mDeinitCallback := deinitCb })

def deinit (s : State L D Cb) : Option Cb × State L D Cb :=
  if s.mSignalInstalled = false then (none, s)
  else
    let s := { s.removeSignal with mSignalInstalled := false }
    match s.mDeinitCallback with
    | none => (none, s)
    | some deinitCb => (some deinitCb, { s with mDeinitCallback := none })

def destructor (s : State L D Cb) : Option Cb × State L D Cb :=
  let (ran, s) := s.deinit
  (ran, { s with sLoop := none, sInstantiated := false })

def step (s : State L D Cb) : Action Cb → Outcome Cb × State L D Cb
  | .call (.init intOk termOk initCb deinitCb) =>
      let (returned, s) := s.init intOk termOk initCb deinitCb
      (⟨returned, none⟩, s)
  | .call .deinit => let (ran, s) := s.deinit; (⟨true, ran⟩, s)
  | .destructor => let (ran, s) := s.destructor; (⟨true, ran⟩, s)

def exec (s : State L D Cb) : List (Action Cb) → State L D Cb
  | [] => s
  | a :: actions => (s.step a).2.exec actions

end State

def lifetime (calls : List (Call Cb)) : List (Action Cb) := calls.map .call ++ [.destructor]

section Operations

variable (s : State L D Cb)

def installed (deinitCb : Option Cb) : State L D Cb :=
  { s with
    sigint := .handler, sigterm := .handler, mSignalInstalled := true,
    mOldInt := s.sigint, mOldTerm := s.sigterm, mDeinitCallback := deinitCb }

/-- init does nothing where the signals are installed. Otherwise it leaves nothing behind but the
saved dispositions, or has done everything. -/
theorem init_cases (intOk termOk : Bool) (initCb : Option Bool) (deinitCb : Option Cb) :
    (s.mSignalInstalled = true ∧ s.init intOk termOk initCb deinitCb = (true, s)) ∨
    (s.mSignalInstalled = false ∧ ∃ mOldInt mOldTerm, s.init intOk termOk initCb deinitCb =
      (false, { s with mOldInt := mOldInt, mOldTerm := mOldTerm })) ∨
    (s.mSignalInstalled = false ∧
      s.init intOk termOk initCb deinitCb = (true, installed s deinitCb)) := by
  obtain ⟨inst, loop, sigint, sigterm, mSignalInstalled, mOldInt, mOldTerm, cb⟩ := s
  cases mSignalInstalled with
  | true => exact Or.inl ⟨rfl, rfl⟩
  | false =>
    right
    cases intOk with
    | false => exact Or.inl ⟨rfl, mOldInt, mOldTerm, rfl⟩
    | true =>
      cases termOk with
      | false => exact Or.inl ⟨rfl, sigint, mOldTerm, rfl⟩
      | true =>
        by_cases hcb : initCb = some false
        · refine Or.inl ⟨rfl, sigint, sigterm, ?_⟩
          simp [State.init, State.installSignal, State.removeSignal, hcb]
        · refine Or.inr ⟨rfl, ?_⟩
          simp [State.init, State.installSignal, installed, hcb]

/-- deinit does nothing where the signals are not installed, and undoes init otherwise. -/
theorem deinit_cases :
    (s.mSignalInstalled = false ∧ s.deinit = (none, s)) ∨
    (s.mSignalInstalled = true ∧ s.deinit = (s.mDeinitCallback,
      { s with
        sigint := s.mOldInt, sigterm := s.mOldTerm, mSignalInstalled := false,
        mDeinitCallback := none })) := by
  obtain ⟨inst, loop, sigint, sigterm, mSignalInstalled, mOldInt, mOldTerm, cb⟩ := s
  cases mSignalInstalled with
  | false => exact Or.inl ⟨rfl, rfl⟩
  | true =>
    refine Or.inr ⟨rfl, ?_⟩
    cases cb with
    | none => rfl
    | some deinitCb => rfl

end Operations

section Invariant

variable {s : State L D Cb} {sigint sigterm : D}

/-- With the handlers in place the former dispositions are saved. Otherwise they are in force and
no callback is owed. -/
structure Consistent (s : State L D Cb) (sigint sigterm : D) : Prop where
  handled : s.mSignalInstalled = true → s.sigint = .handler ∧ s.sigterm = .handler
  saved : s.mSignalInstalled = true → s.mOldInt = .foreign sigint ∧ s.mOldTerm = .foreign sigterm
  restored : s.mSignalInstalled = false → s.sigint = .foreign sigint ∧ s.sigterm = .foreign sigterm
  owed : s.mSignalInstalled = false → s.mDeinitCallback = none

theorem consistent_construct (loop : L) (zero : D) :
    Consistent (construct loop zero sigint sigterm : State L D Cb) sigint sigterm where
  handled h := by cases h
  saved h := by cases h
  restored _ := ⟨rfl, rfl⟩
  owed _ := rfl

theorem Consistent.installed (h : Consistent s sigint sigterm) (hflag : s.mSignalInstalled = false)
    (deinitCb : Option Cb) : Consistent (installed s deinitCb) sigint sigterm where
  handled _ := ⟨rfl, rfl⟩
  saved _ := h.restored hflag
  restored hnot := by cases hnot
  owed hnot := by cases hnot

/-- init saves the dispositions that it replaces, and puts them back when it fails. -/
theorem Consistent.init (h : Consistent s sigint sigterm) (intOk termOk : Bool)
    (initCb : Option Bool) (deinitCb : Option Cb) :
    Consistent (s.init intOk termOk initCb deinitCb).2 sigint sigterm := by
  rcases init_cases s intOk termOk initCb deinitCb with
    ⟨-, heq⟩ | ⟨hflag, mOldInt, mOldTerm, heq⟩ | ⟨hflag, heq⟩
  · rw [heq]
    exact h
  · rw [heq]
    have hnot : s.mSignalInstalled ≠ true := by simp [hflag]
    exact ⟨fun hset => absurd hset hnot, fun hset => absurd hset hnot, h.restored, h.owed⟩
  · rw [heq]
    exact h.installed hflag deinitCb

/-- deinit puts the former dispositions in force again. -/
theorem Consistent.deinit (h : Consistent s sigint sigterm) :
    Consistent s.deinit.2 sigint sigterm := by
  rcases deinit_cases s with ⟨-, heq⟩ | ⟨hflag, heq⟩
  · rw [heq]
    exact h
  · rw [heq]
    exact ⟨fun hset => absurd hset Bool.false_ne_true, fun hset => absurd hset Bool.false_ne_true,
      fun _ => h.saved hflag, fun _ => rfl⟩

/-- Each call leaves the handlers in place together with what they replaced, or neither. -/
theorem Consistent.step (h : Consistent s sigint sigterm) (a : Action Cb) :
    Consistent (s.step a).2 sigint sigterm := by
  rcases a with (⟨intOk, termOk, initCb, deinitCb⟩ | _) | _
  · exact h.init intOk termOk initCb deinitCb
  · exact h.deinit
  · have hd := h.deinit
    exact ⟨hd.handled, hd.saved, hd.restored, hd.owed⟩

/-- By induction over the calls of a lifetime. -/
theorem Consistent.exec (h : Consistent s sigint sigterm) (actions : List (Action Cb)) :
    Consistent (s.exec actions) sigint sigterm := by
  induction actions generalizing s with
  | nil => exact h
  | cons a actions ih => exact ih (h.step a)

end Invariant

end CWrapper.Platform
