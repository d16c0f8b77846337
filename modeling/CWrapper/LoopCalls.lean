import Mathlib.Data.Fintype.Basic
import CWrapper.LoopLocks

/-!
The calls of MainLoop and of its timers from their first lock on, and who makes them. The thread
that runs loop() is a thread like the others while it runs code of the user: posted functions, timer
handlers and watchers. It calls nothing elsewhere, and does not go on in loop() before its call has
returned.
-/
namespace CWrapper.LoopCalls

open MainLoop Timer Transition

variable {T Th F : Type}

/-- A call before it has its first lock. -/
inductive Request (T F : Type)
  | start (t : T) (msec : Msec) (rep : Bool)
  | stop (t : T)
  | post (func : F)

structure State (T Th F : Type) where
  mLoop : MainLoop.State T Th F
  request : Th → Option (Request T F)

inductive Action (T Th F : Type)
  | call (th : Th) (r : Request T F)
  /-- A thread gets the first lock of its call. -/
  | enter (th : Th)
  | main (a : MainLoop.Action T Th F)

def Request.action (th : Th) : Request T F → MainLoop.Action T Th F
  | .start t msec rep => .start th t msec rep
  | .stop t => .stop th t
  | .post func => .post th func

/-- The thread that calls a function of a timer by the step, and the timer. -/
def Action.called : Action T Th F → Option (Th × T)
  | .call th (.start t _ _) | .call th (.stop t) | .main (.restart th t) => some (th, t)
  | _ => none

def Action.destroyed : Action T Th F → Option (Th × T)
  | .main (.destroy th t) => some (th, t)
  | _ => none

def Request.on [DecidableEq T] (t : T) : Request T F → Bool
  | .start u _ _ | .stop u => u = t
  | .post _ => false

/-- Code of the user runs on the thread of the loop. -/
@[grind =] def runsUser : LoopPoint T F → Bool
  | .outside | .invoke _ | .exec _ .callback | .events (.watcher :: _) | .exited => true
  | _ => false

@[grind =] def isIdle : ThreadPoint T F → Bool
  | .idle => true
  | _ => false

@[grind =] def isOn [DecidableEq T] (t : T) : ThreadPoint T F → Bool
  | .timer u _ | .restart u _ _ => u = t
  | _ => false

def handled : LoopPoint T F → Option T
  | .exec t .callback => some t
  | _ => none

section Step

variable [DecidableEq Th]

namespace State

def isFree (s : State T Th F) (th : Th) : Bool :=
  (s.request th).isNone && isIdle (s.mLoop.thread th)

variable (runner : Th)

/-- The thread of the loop calls from code of the user. -/
def mayCall (s : State T Th F) (th : Th) : Bool :=
  s.isFree th && (th ≠ runner || runsUser s.mLoop.loop)

/-- Calls begin where they may, and loop() goes on when no call of its thread is in progress. -/
def admits (s : State T Th F) : MainLoop.Action T Th F → Bool
  | .start .. | .stop .. | .post .. => false
  | .restart th _ | .destroy th _ | .terminate th => s.mayCall runner th
  | .enter | .loop _ => !runsUser s.mLoop.loop || s.isFree runner
  | _ => true

def uses [DecidableEq T] (s : State T Th F) (th : Th) (t : T) : Bool :=
  (s.request th).any (Request.on t) || isOn t (s.mLoop.thread th)

end State

variable [DecidableEq T] (runner : Th) (capacity : ℕ+)

def step (s : State T Th F) : Action T Th F → Option (State T Th F)
  | .call th r =>
      if s.mayCall runner th then some { s with request := Function.update s.request th (some r) }
      else none
  | .enter th => do
      let r ← s.request th
      let m ← MainLoop.step capacity s.mLoop (r.action th)
      some { mLoop := m, request := Function.update s.request th none }
  | .main a =>
      if s.admits runner a then
        (MainLoop.step capacity s.mLoop a).map fun m => { s with mLoop := m }
      else none

def machine : Machine (State T Th F) (Action T Th F) where
  initial s := (system T Th F capacity).initial s.mLoop ∧ ∀ th, s.request th = none
  step := step runner capacity

/-- An object is used while it lives: a function of a timer is called before the destructor, and the
destructor when no thread is in a function of the timer. -/
def Lifetimes (s : State T Th F) (a : Action T Th F) : Prop :=
  (∀ c ∈ a.called, (s.mLoop.locks c.2).life = .alive) ∧
    ∀ c ∈ a.destroyed, ∀ th, s.uses th c.2 = false

instance [Fintype Th] (s : State T Th F) (a : Action T Th F) : Decidable (Lifetimes s a) :=
  inferInstanceAs (Decidable (_ ∧ _))

/-- What ITimerHandler demands: the handler calls no function of its own timer. -/
def HandlerContract (s : State T Th F) (a : Action T Th F) : Prop :=
  (∀ c ∈ a.called, c.1 = runner → handled s.mLoop.loop ≠ some c.2) ∧
    ∀ c ∈ a.destroyed, c.1 = runner → handled s.mLoop.loop ≠ some c.2

instance (s : State T Th F) (a : Action T Th F) : Decidable (HandlerContract runner s a) :=
  inferInstanceAs (Decidable (_ ∧ _))

end Step

section Steps

variable [DecidableEq T] [DecidableEq Th] {runner : Th} {capacity : ℕ+} {s s' : State T Th F}
  {a : Action T Th F}

omit [DecidableEq Th] in
theorem mem_called {r : Request T F} {t : T} (th : Th) (hr : r.on t = true) :
    (th, t) ∈ (Action.call th r).called := by
  cases r with
  | start u msec rep =>
    obtain rfl : u = t := of_decide_eq_true hr
    rfl
  | stop u =>
    obtain rfl : u = t := of_decide_eq_true hr
    rfl
  | post func => cases hr

/-- What a step can do. -/
theorem step_cases (h : step runner capacity s a = some s') :
    (∃ th r, a = .call th r ∧ s.mayCall runner th = true ∧
      s' = { s with request := Function.update s.request th (some r) }) ∨
    (∃ th r m, a = .enter th ∧ s.request th = some r ∧
      MainLoop.step capacity s.mLoop (r.action th) = some m ∧
      s' = { mLoop := m, request := Function.update s.request th none }) ∨
    ∃ b m, a = .main b ∧ s.admits runner b = true ∧ MainLoop.step capacity s.mLoop b = some m ∧
      s' = { s with mLoop := m } := by
  cases a with
  | call th r =>
    simp only [step] at h
    split at h
    · rename_i hmay
      exact Or.inl ⟨th, r, rfl, hmay, (Option.some.inj h).symm⟩
    · cases h
  | enter th =>
    obtain ⟨r, hr, h⟩ := Option.bind_eq_some_iff.mp h
    obtain ⟨m, hm, h⟩ := Option.bind_eq_some_iff.mp h
    exact Or.inr (Or.inl ⟨th, r, m, rfl, hr, hm, (Option.some.inj h).symm⟩)
  | main b =>
    simp only [step] at h
    split at h
    · rename_i hadmits
      obtain ⟨m, hm, rfl⟩ := Option.map_eq_some_iff.mp h
      exact Or.inr (Or.inr ⟨b, m, rfl, hadmits, hm, rfl⟩)
    · cases h

end Steps

end CWrapper.LoopCalls
