import Mathlib.Data.List.FinRange
import Mathlib.Logic.Function.Basic
import CWrapper.Transition

/-!
ObserverList.h: RawObserverList with the threads that use it. A section under mLock is one
step. A call that is not over in one section (notify, and removeAndWait once it waits) is an
element of `calls`, numbered by its place there; a thread runs the calls on its stack,
innermost first, and makes further calls from inside an action. The wait of removeAndWait
is a wait on mLock and may return without a broadcast.
Registrations are the successful adds, numbered from 1. Their numbers and the log are for
stating what happens; no branch reads them.
-/
namespace CWrapper.ObserverList

inductive RemoveResult
  | removed
  | notFound
  | nullObserver
  deriving DecidableEq, Repr

/-- Each of `activeCalls` is a call whose stack frame is in memory, so a size_t counts them. -/
structure Entry (O : Type) (w : ℕ) where
  observer : Option O
  activeCalls : ℕ
  generation : BitVec w
  removed : Bool
  waitingRemoval : Bool
  deriving DecidableEq

def Entry.reset {O : Type} {w : ℕ} : Entry O w := ⟨none, 0, 0#w, false, false⟩

structure RawObserverList (O : Type) (N w : ℕ) where
  mEntries : Fin N → Entry O w
  mOccupiedBits : Fin N → Bool
  mGeneration : BitVec w

namespace RawObserverList

variable {O : Type} [DecidableEq O] {N w : ℕ}

def empty : RawObserverList O N w := ⟨fun _ => Entry.reset, fun _ => false, 0#w⟩

def setEntry (l : RawObserverList O N w) (index : Fin N) (entry : Entry O w) :
    RawObserverList O N w :=
  { l with mEntries := Function.update l.mEntries index entry }

def resetEntryLocked (l : RawObserverList O N w) (index : Fin N) : RawObserverList O N w where
  mEntries := Function.update l.mEntries index Entry.reset
  mOccupiedBits := Function.update l.mOccupiedBits index false
  mGeneration := l.mGeneration

/-- The loop of add: no index when the observer is present or no slot is free. -/
def scanFree (l : RawObserverList O N w) (observer : O) :
    List (Fin N) → Option (Fin N) → Option (Fin N)
  | [], freeIndex => freeIndex
  | i :: rest, freeIndex =>
      if l.mOccupiedBits i then
        if (l.mEntries i).observer = some observer then none
        else l.scanFree observer rest freeIndex
      else l.scanFree observer rest (freeIndex.or (some i))

def freeIndexFor (l : RawObserverList O N w) (observer : O) : Option (Fin N) :=
  l.scanFree observer (List.finRange N) none

def add (l : RawObserverList O N w) : Option O → Bool × RawObserverList O N w
  | none => (false, l)
  | some observer =>
      match l.freeIndexFor observer with
      | none => (false, l)
      | some freeIndex =>
          (true,
            { mEntries := Function.update l.mEntries freeIndex
                ⟨some observer, 0, l.mGeneration + 1#w, false, false⟩
              mOccupiedBits := Function.update l.mOccupiedBits freeIndex true
              mGeneration := l.mGeneration + 1#w })

/-- The test that findActiveEntryIndexLocked and contains make at each slot. -/
def IsActive (l : RawObserverList O N w) (observer : O) (i : Fin N) : Prop :=
  l.mOccupiedBits i = true ∧ (l.mEntries i).observer = some observer ∧
    (l.mEntries i).removed = false

instance (l : RawObserverList O N w) (observer : O) (i : Fin N) :
    Decidable (l.IsActive observer i) :=
  inferInstanceAs (Decidable (_ ∧ _ ∧ _))

def findActiveEntryIndexLocked (l : RawObserverList O N w) (observer : O) : Option (Fin N) :=
  (List.finRange N).find? fun i => decide (l.IsActive observer i)

def contains (l : RawObserverList O N w) : Option O → Bool
  | none => false
  | some observer => (List.finRange N).any fun i => decide (l.IsActive observer i)

def remove (l : RawObserverList O N w) : Option O → RemoveResult × RawObserverList O N w
  | none => (.nullObserver, l)
  | some observer =>
      match l.findActiveEntryIndexLocked observer with
      | none => (.notFound, l)
      | some index =>
          let entry := l.mEntries index
          let l := l.setEntry index { entry with removed := true }
          if entry.activeCalls = 0 ∧ entry.waitingRemoval = false then
            (.removed, l.resetEntryLocked index)
          else (.removed, l)

/-- removeAndWait up to its wait: it returns, or it waits for the entry of a slot. -/
def removeAndWait (l : RawObserverList O N w) :
    Option O → (RemoveResult ⊕ Fin N) × RawObserverList O N w
  | none => (.inl .nullObserver, l)
  | some observer =>
      match l.findActiveEntryIndexLocked observer with
      | none => (.inl .notFound, l)
      | some index =>
          let entry := l.mEntries index
          if entry.activeCalls = 0 then
            (.inl .removed,
              (l.setEntry index { entry with removed := true }).resetEntryLocked index)
          else
            (.inr index,
              l.setEntry index { entry with removed := true, waitingRemoval := true })

def acquireForNotify (l : RawObserverList O N w) (index : Fin N) (startGeneration : BitVec w) :
    Option O × RawObserverList O N w :=
  let entry := l.mEntries index
  if l.mOccupiedBits index = false then (none, l)
  else if entry.removed then (none, l)
  else if startGeneration < entry.generation then (none, l)
  else (entry.observer, l.setEntry index { entry with activeCalls := entry.activeCalls + 1 })

/-- The locked part of releaseAfterNotify, with its notifyWaiter. -/
def releaseAfterNotify (l : RawObserverList O N w) (index : Fin N) :
    Bool × RawObserverList O N w :=
  if l.mOccupiedBits index = false then (false, l)
  else
    let entry := l.mEntries index
    let activeCalls := if 0 < entry.activeCalls then entry.activeCalls - 1 else entry.activeCalls
    let l := l.setEntry index { entry with activeCalls := activeCalls }
    if activeCalls = 0 then
      if entry.removed && !entry.waitingRemoval then
        (entry.waitingRemoval, l.resetEntryLocked index)
      else (entry.waitingRemoval, l)
    else (false, l)

def releaseRemovedAt (l : RawObserverList O N w) (i : Fin N) : RawObserverList O N w :=
  if l.mOccupiedBits i = true ∧ (l.mEntries i).removed = true ∧
      (l.mEntries i).waitingRemoval = false ∧ (l.mEntries i).activeCalls = 0 then
    l.resetEntryLocked i
  else l

def releaseRemoved (l : RawObserverList O N w) : RawObserverList O N w :=
  (List.finRange N).foldl releaseRemovedAt l

end RawObserverList

/-- Where a call of notify stands: at slot `i` of its loop, which ends at `N`; in the action
on `target`; or in releaseAfterNotify, about to broadcast. -/
inductive NotifyPoint (O : Type) (N : ℕ)
  | walk (i : ℕ)
  | action (i : Fin N) (target : O)
  | broadcast (i : Fin N)
  | done

inductive WaitPoint
  | blocked
  | woken
  | done
  deriving DecidableEq, Repr

inductive Call (O : Type) (N w : ℕ)
  | notify (startGeneration : BitVec w) (occupiedSnapshot : Fin N → Bool)
      (point : NotifyPoint O N)
  | removeAndWait (observer : Option O) (index : Fin N) (point : WaitPoint)

/-- What happens, each with the registration `r`, the observer, the slot or the call `c` it is
about. A call reaches a slot when it has acquireForNotify called on it. -/
inductive Event (O Th : Type) (N : ℕ)
  | added (r : ℕ) (observer : O) (i : Fin N)
  | flagged (r : ℕ)
  | returned (th : Th) (observer : Option O) (result : RemoveResult)
  | snapshot (c : ℕ)
  | reached (c : ℕ) (i : Fin N)
  | began (c r : ℕ) (observer : O)
  | finished (c : ℕ)
  deriving DecidableEq

/-- The log has the latest event first. -/
structure State (O Th : Type) (N w : ℕ) where
  list : RawObserverList O N w
  calls : List (Call O N w)
  stack : Th → List ℕ
  adds : ℕ
  registration : Fin N → ℕ
  log : List (Event O Th N)

/-- What a thread may do next. In a callback it may make any call; `resume` lets the call it
runs go on, which ends the callback where it stands in one. -/
inductive Action (O Th : Type)
  | add (th : Th) (observer : Option O)
  | remove (th : Th) (observer : Option O)
  | removeAndWait (th : Th) (observer : Option O)
  | notify (th : Th)
  | resume (th : Th)
  | spurious (th : Th)
  deriving DecidableEq, Repr

def Call.inAction {O : Type} {N w : ℕ} : Call O N w → Bool
  | .notify _ _ (.action _ _) => true
  | _ => false

def Call.wake {O : Type} {N w : ℕ} : Call O N w → Call O N w
  | .removeAndWait observer index .blocked => .removeAndWait observer index .woken
  | call => call

section Step

variable {O Th : Type} [DecidableEq O] [DecidableEq Th] {N w : ℕ}

/-- The innermost call of a thread, under its number, with the calls around it. -/
def State.current (s : State O Th N w) (th : Th) : Option (ℕ × List ℕ × Call O N w) :=
  match s.stack th with
  | [] => none
  | c :: rest => (s.calls[c]?).map fun call => (c, rest, call)

/-- A thread makes a call when it runs none, or from inside an action. -/
def State.mayCall (s : State O Th N w) (th : Th) : Bool :=
  (s.stack th).isEmpty || (s.current th).any fun (_, _, call) => call.inAction

def State.flagEvents (s : State O Th N w) (observer : Option O) : List (Event O Th N) :=
  match observer.bind s.list.findActiveEntryIndexLocked with
  | none => []
  | some index => [.flagged (s.registration index)]

def State.enter (s : State O Th N w) (th : Th) (call : Call O N w) : State O Th N w :=
  { s with
    calls := s.calls ++ [call]
    stack := Function.update s.stack th (s.calls.length :: s.stack th) }

def State.goto (s : State O Th N w) (c : ℕ) (call : Call O N w) : State O Th N w :=
  { s with calls := s.calls.set c call }

def State.leave (s : State O Th N w) (th : Th) (c : ℕ) (rest : List ℕ) (call : Call O N w) :
    State O Th N w :=
  { s with calls := s.calls.set c call, stack := Function.update s.stack th rest }

def State.note (s : State O Th N w) (events : List (Event O Th N)) : State O Th N w :=
  { s with log := events ++ s.log }

def State.withList (s : State O Th N w) (l : RawObserverList O N w) : State O Th N w :=
  { s with list := l }

def addStep (s : State O Th N w) (observer : Option O) : State O Th N w :=
  match observer with
  | none => s
  | some o =>
      match s.list.freeIndexFor o with
      | none => s
      | some i => { s with
          list := (s.list.add (some o)).2
          adds := s.adds + 1
          registration := Function.update s.registration i (s.adds + 1)
          log := .added (s.adds + 1) o i :: s.log }

def removeStep (s : State O Th N w) (observer : Option O) : State O Th N w :=
  (s.withList (s.list.remove observer).2).note (s.flagEvents observer)

def removeAndWaitStep (s : State O Th N w) (th : Th) (observer : Option O) : State O Th N w :=
  match s.list.removeAndWait observer with
  | (.inl result, l) =>
      (s.withList l).note (.returned th observer result :: s.flagEvents observer)
  | (.inr index, l) =>
      ((s.withList l).enter th (.removeAndWait observer index .blocked)).note
        (s.flagEvents observer)

def notifyStep (s : State O Th N w) (th : Th) : State O Th N w :=
  (s.enter th (.notify s.list.mGeneration s.list.mOccupiedBits (.walk 0))).note
    [.snapshot s.calls.length]

/-- One round of notify's loop up to the action, or releaseRemoved after the last. -/
def walkStep (s : State O Th N w) (th : Th) (c : ℕ) (rest : List ℕ)
    (startGeneration : BitVec w) (occupiedSnapshot : Fin N → Bool) (i : ℕ) : State O Th N w :=
  if hi : i < N then
    if occupiedSnapshot ⟨i, hi⟩ then
      match s.list.acquireForNotify ⟨i, hi⟩ startGeneration with
      | (none, l) =>
          ((s.withList l).goto c
            (.notify startGeneration occupiedSnapshot (.walk (i + 1)))).note [.reached c ⟨i, hi⟩]
      | (some target, l) =>
          ((s.withList l).goto c
            (.notify startGeneration occupiedSnapshot (.action ⟨i, hi⟩ target))).note
            [.began c (s.registration ⟨i, hi⟩) target, .reached c ⟨i, hi⟩]
    else s.goto c (.notify startGeneration occupiedSnapshot (.walk (i + 1)))
  else
    ((s.withList s.list.releaseRemoved).leave th c rest
      (.notify startGeneration occupiedSnapshot .done)).note [.finished c]

def callStep (s : State O Th N w) (th : Th) (c : ℕ) (rest : List ℕ) :
    Call O N w → Option (State O Th N w)
  | .notify startGeneration occupiedSnapshot (.walk i) =>
      some (walkStep s th c rest startGeneration occupiedSnapshot i)
  | .notify startGeneration occupiedSnapshot (.action i _) =>
      match s.list.releaseAfterNotify i with
      | (notifyWaiter, l) =>
          some ((s.withList l).goto c (.notify startGeneration occupiedSnapshot
            (if notifyWaiter then .broadcast i else .walk (i + 1))))
  | .notify startGeneration occupiedSnapshot (.broadcast i) =>
      some (({ s with calls := s.calls.map Call.wake }).goto c
        (.notify startGeneration occupiedSnapshot (.walk (i + 1))))
  | .removeAndWait observer index .woken =>
      if (s.list.mEntries index).activeCalls = 0 then
        some (((s.withList (s.list.resetEntryLocked index)).leave th c rest
          (.removeAndWait observer index .done)).note [.returned th observer .removed])
      else some (s.goto c (.removeAndWait observer index .blocked))
  | .notify _ _ .done | .removeAndWait _ _ .blocked | .removeAndWait _ _ .done => none

def step (s : State O Th N w) : Action O Th → Option (State O Th N w)
  | .add th observer => if s.mayCall th then some (addStep s observer) else none
  | .remove th observer => if s.mayCall th then some (removeStep s observer) else none
  | .removeAndWait th observer =>
      if s.mayCall th then some (removeAndWaitStep s th observer) else none
  | .notify th => if s.mayCall th then some (notifyStep s th) else none
  | .resume th =>
      match s.current th with
      | none => none
      | some (c, rest, call) => callStep s th c rest call
  | .spurious th =>
      match s.current th with
      | some (c, _, .removeAndWait observer index .blocked) =>
          some (s.goto c (.removeAndWait observer index .woken))
      | _ => none

def State.start : State O Th N w := ⟨.empty, [], fun _ => [], 0, fun _ => 0, []⟩

end Step

open Transition

def system (O Th : Type) [DecidableEq O] [DecidableEq Th] (N w : ℕ) :
    Machine (State O Th N w) (Action O Th) where
  initial s := s = State.start
  step := step

theorem initial_start {O Th : Type} [DecidableEq O] [DecidableEq Th] {N w : ℕ} :
    (system O Th N w).initial State.start := rfl

end CWrapper.ObserverList
