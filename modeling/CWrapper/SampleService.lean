import CWrapper.AsyncProgress
import CWrapper.SyncQueueWakeup

/-!
SampleService in Main.cpp, a consumer thread with its queue. Threads other than the worker call
start(), stop() and request(); the worker thread is in the callback that start() gives to mThread.
The result of a call in mMsgQ is the last entry of the queue's history when the call has returned.
-/
namespace CWrapper.SampleService

open Transition

structure Msg where
  mWhat : ℤ
  mArg1 : ℤ
  mArg2 : ℤ
  mArg3 : ℤ
  deriving DecidableEq, Repr

/-- Msg() -/
instance : Inhabited Msg := ⟨⟨0, 0, 0, 0⟩⟩

def messages : ℕ+ := Nat.succPNat 63

inductive Operation
  | start
  | stop
  deriving DecidableEq

inductive Call
  | none
  /-- In mMsgQ.setEOS(). -/
  | setEOS (op : Operation)
  /-- In mThread.start() or mThread.stop(). -/
  | thread (op : Operation)
  /-- In mMsgQ.put(). -/
  | request
  deriving DecidableEq

inductive LoopPoint
  | outside
  | shouldRun
  /-- In mMsgQ.get(). -/
  | get
  | log (msg : Msg)
  | done
  deriving DecidableEq

structure State (Th : Type) where
  mMsgQ : SyncQueue.State Msg Th messages
  mThread : AsyncThread.State Unit Th
  call : Th → Call
  loop : Th → LoopPoint
  /-- The messages that the callback has logged. -/
  logged : List Msg

inductive Action (Th : Type)
  | start (th : Th)
  | stop (th : Th)
  | request (th : Th) (what : ℤ)
  /-- The next step of a thread in start(), stop() or request(), outside the two members. -/
  | next (th : Th)
  /-- The next step of the worker thread in the callback, outside the two members. -/
  | loop (th : Th)
  | queue (a : SyncQueue.Action Msg Th)
  | thread (a : AsyncThread.Action Unit Th)

def Operation.eos : Operation → Bool
  | .start => false
  | .stop => true

section Step

variable {Th : Type} [DecidableEq Th]

/-- What start() and stop() call in mThread. -/
def Operation.inThread (th : Th) : Operation → AsyncThread.Action Unit Th
  | .start => .start th ()
  | .stop => .stop th

namespace State

def goto (s : State Th) (th : Th) (c : Call) : State Th :=
  { s with call := Function.update s.call th c }

def gotoLoop (s : State Th) (th : Th) (pt : LoopPoint) : State Th :=
  { s with loop := Function.update s.loop th pt }

def queueStep (s : State Th) (a : SyncQueue.Action Msg Th) : Option (State Th) :=
  (SyncQueue.step id s.mMsgQ a).map fun q => { s with mMsgQ := q }

def threadStep (s : State Th) (a : AsyncThread.Action Unit Th) : Option (State Th) :=
  (AsyncThread.step s.mThread a).map fun t => { s with mThread := t }

def isFree (s : State Th) (th : Th) : Bool := s.call th = .none && s.mThread.isFree th

def enter (s : State Th) (th : Th) (op : Operation) : Option (State Th) :=
  if s.isFree th then (s.goto th (.setEOS op)).queueStep (.setEOS th op.eos) else none

/-- The calls into the two members come from the functions of SampleService; the callback does not
sleep, and returns at the end of its loop only; the thread that is created is a new one. -/
def admits (s : State Th) : AsyncThread.Action Unit Th → Bool
  | .start _ _ | .stop _ | .engine (.call _ _) => false
  | .run th => s.mThread.run th ≠ .inside || s.loop th = .done
  | .engine (.resume _ (.thread id)) => s.call id = .none
  | _ => true

def received (s : State Th) : LoopPoint :=
  match s.mMsgQ.returned.getLast? with
  | some (_, .get true (some msg)) => .log msg
  | _ => .done

/-- What a step of mMsgQ means for the callback. -/
def receive (s : State Th) : SyncQueue.Action Msg Th → State Th
  | .resume th _ =>
      if s.loop th = .get && s.mMsgQ.thread th = .idle then s.gotoLoop th s.received else s
  | _ => s

/-- The state `s'` after a step of mThread, in which the worker thread may have entered or left the
callback. -/
def follow (s s' : State Th) : AsyncThread.Action Unit Th → State Th
  | .run th =>
      match s.mThread.run th with
      | .invoke => s'.gotoLoop th .shouldRun
      | .inside => s'.gotoLoop th .outside
      | _ => s'
  | _ => s'

end State

def inQueue : SyncQueue.Action Msg Th → Bool
  | .tick _ | .resume _ _ | .spurious _ | .timeout _ => true
  | _ => false

def nextStep (s : State Th) (th : Th) : Call → Option (State Th)
  | .none => none
  | .setEOS op =>
      if s.mMsgQ.thread th = .idle then (s.goto th (.thread op)).threadStep (op.inThread th)
      else none
  | .thread _ => if (s.mThread.call th).isNone then some (s.goto th .none) else none
  | .request => if s.mMsgQ.thread th = .idle then some (s.goto th .none) else none

def loopStep (s : State Th) (th : Th) : LoopPoint → Option (State Th)
  | .outside | .get | .done => none
  | .shouldRun =>
      if s.mThread.mThreadEngine.shouldRun then
        (s.gotoLoop th .get).queueStep (.get th (some default) SyncQueue.INFINITE)
      else some (s.gotoLoop th .done)
  | .log msg => some ({ s with logged := s.logged ++ [msg] }.gotoLoop th .shouldRun)

def step (s : State Th) : Action Th → Option (State Th)
  | .start th => s.enter th .start
  | .stop th => s.enter th .stop
  | .request th what =>
      if s.isFree th then
        (s.goto th .request).queueStep (.put th ⟨what, 0, 0, 0⟩ SyncQueue.INFINITE)
      else none
  | .next th => nextStep s th (s.call th)
  | .loop th => loopStep s th (s.loop th)
  | .queue a => if inQueue a then (s.queueStep a).map fun s' => s'.receive a else none
  | .thread a => if s.admits a then (s.threadStep a).map fun s' => s.follow s' a else none

/-- The object after construction; all threads are outside its functions. -/
def start (now : ℕ) : State Th where
  mMsgQ := .start now
  mThread := AsyncThread.start
  call _ := .none
  loop _ := .outside
  logged := []

def machine (Th : Type) [DecidableEq Th] : Machine (State Th) (Action Th) where
  initial s := ∃ now, s = start now
  step := step

end Step

end CWrapper.SampleService
