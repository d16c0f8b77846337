import CWrapper.FixedFunction
import CWrapper.WorkerCalls

/-!
AsyncThread.h. Threads other than the worker call start() and stop(), which use the WorkerThread
under mLifecycleLock; the worker thread calls run(). The worker object of every session is the
AsyncThread itself. A callback is numbered by the call of start() that brings it. pthread_join fails
for the caller itself and for an identity without a thread only.
-/
namespace CWrapper.AsyncThread

open Transition

variable {K Th : Type}

inductive Operation (K : Type)
  | start (callback : Callable K)
  | stop

inductive Call (K : Type)
  | none
  /-- The test of ASSERT_IF. -/
  | isCurrentThread (op : Operation K)
  | lockLifecycle (op : Operation K)
  | shouldRun (callback : Callable K)
  | callStop (op : Operation K)
  /-- In mThreadEngine.stop(). -/
  | stopping (op : Operation K)
  | assign (callback : Callable K)
  | callStart (callback : Callable K)
  /-- In mThreadEngine.start(), with its result when it has come to its end. -/
  | starting (callback : Callable K) (result : Bool)
  /-- About to release mLifecycleLock and to return; stop() has no result. -/
  | unlock (op : Operation K) (result : Option Bool)

inductive RunPoint
  | outside
  | test
  | invoke
  | inside
  | leave
  deriving DecidableEq

/-- What happened, with the callback of the call of start() or the number of the session's. -/
inductive Event (K : Type)
  | refused (callback : Callable K)
  | assigned (callback : Callable K)
  | created (callback : Callable K)
  | returned (callback : Callable K) (result : Bool)
  | invoked (session : ℕ) (callback : Callable K)
  | left (session : ℕ)
  deriving DecidableEq

structure State (K Th : Type) where
  mThreadEngine : WorkerThread.State Unit Th
  mWorkerTask : FixedFunction K
  mLifecycleLock : Option Th
  call : Th → Call K
  run : Th → RunPoint
  /-- How many calls of start() there were. -/
  starts : ℕ
  /-- The number of the call of start() that has created the thread. -/
  session : Th → ℕ
  log : List (Event K)

inductive Action (K Th : Type)
  | start (th : Th) (type : K)
  | stop (th : Th)
  /-- The next step of a thread in start() or stop(). -/
  | resume (th : Th)
  /-- The next step of the worker thread in run(); inside the callback, its return. -/
  | run (th : Th)
  /-- A step of the WorkerThread and its threads. -/
  | engine (a : WorkerThread.Action Unit Th)

def Call.isNone : Call K → Bool
  | .none => true
  | _ => false

def Operation.locked : Operation K → Call K
  | .start callback => .shouldRun callback
  | .stop => .callStop .stop

def Operation.stopped : Operation K → Call K
  | .start callback => .assign callback
  | .stop => .unlock .stop Option.none

section Step

variable [DecidableEq Th]

namespace State

def goto (s : State K Th) (th : Th) (c : Call K) : State K Th :=
  { s with call := Function.update s.call th c }

def gotoRun (s : State K Th) (th : Th) (pt : RunPoint) : State K Th :=
  { s with run := Function.update s.run th pt }

def emit (s : State K Th) (e : Event K) : State K Th := { s with log := s.log ++ [e] }

def isFree (s : State K Th) (th : Th) : Bool :=
  (s.call th).isNone && (s.mThreadEngine.call th).isNone && (s.mThreadEngine.task th).isNone

def engineStep (s : State K Th) (a : WorkerThread.Action Unit Th) : Option (State K Th) :=
  (WorkerThread.step s.mThreadEngine a).map fun e => { s with mThreadEngine := e }

end State

def returned (s : State K Th) : Operation K → Option Bool → State K Th
  | .start callback, some result => s.emit (.returned callback result)
  | _, _ => s

def callStep (s : State K Th) (th : Th) : Call K → Option (State K Th)
  | .none => none
  | .isCurrentThread op =>
      -- abort(), unless NDEBUG is defined
      if s.mThreadEngine.isCurrentThread th then none else some (s.goto th (.lockLifecycle op))
  | .lockLifecycle op =>
      if s.mLifecycleLock.isNone then some ({ s with mLifecycleLock := some th }.goto th op.locked)
      else none
  | .shouldRun callback =>
      if s.mThreadEngine.shouldRun then
        some ((s.emit (.refused callback)).goto th (.unlock (.start callback) (some false)))
      else some (s.goto th (.callStop (.start callback)))
  | .callStop op => (s.goto th (.stopping op)).engineStep (.call th .stop)
  | .stopping op =>
      if (s.mThreadEngine.call th).isNone then some (s.goto th op.stopped) else none
  | .assign callback =>
      some (({ s with
        mWorkerTask := (FixedFunction.moveAssign s.mWorkerTask (.construct callback)).1 }.emit
          (.assigned callback)).goto th (.callStart callback))
  | .callStart callback => (s.goto th (.starting callback false)).engineStep (.call th (.start ()))
  | .starting callback result =>
      if (s.mThreadEngine.call th).isNone then
        some (s.goto th (.unlock (.start callback) (some result)))
      else none
  | .unlock op result =>
      some ((returned { s with mLifecycleLock := none } op result).goto th .none)

def runStep (s : State K Th) (th : Th) : RunPoint → Option (State K Th)
  | .outside | .leave => none
  | .test => some (s.gotoRun th (if s.mWorkerTask.toBool then .invoke else .leave))
  | .invoke =>
      let invoked := s.mWorkerTask.invoke.map (Event.invoked (s.session th))
      some ({ s with log := s.log ++ invoked }.gotoRun th .inside)
  | .inside =>
      if (s.mThreadEngine.call th).isNone then some (s.gotoRun th .leave) else none

/-- What the threads do with mThreadEngine but for the calls of start() and stop(): a callback may
sleep, the thread that is created is a new one, onPrepare returns true, pthread_join of a thread
succeeds, and run() returns when it has come to its end. -/
def State.admits (s : State K Th) : WorkerThread.Action Unit Th → Bool
  | .call th .msleep =>
      (s.call th).isNone && ((s.mThreadEngine.task th).isNone || s.run th = .inside)
  | .call _ _ => false
  | .resume th answer =>
      match s.mThreadEngine.call th, answer with
      | .none, _ => s.run th = .outside || s.run th = .leave
      | .start _ (.prepare .create), .thread id => (s.call id).isNone
      | .start _ (.prepare .inPrepare), .no => false
      | .joinLocked _ (.pthreadJoin (some id)), .no =>
          id = th || (s.mThreadEngine.task id).isNone
      | _, _ => true
  | _ => true

def State.create (s : State K Th) (id : Th) : Call K → State K Th
  | .starting callback _ =>
      { s with session := Function.update s.session id callback.id }.emit (.created callback)
  | _ => s

/-- The worker thread enters run(), or has left it. -/
def State.turn (s : State K Th) (th : Th) : WorkerThread.Task Unit → State K Th
  | .released (some _) => s.gotoRun th .test
  | .run _ => (s.emit (.left (s.session th))).gotoRun th .outside
  | _ => s

def State.finish (s : State K Th) (th : Th) (c : WorkerThread.Call Unit Th) : State K Th :=
  match s.call th, s.mThreadEngine.call th with
  | .starting callback _, .unlock => s.goto th (.starting callback c.succeeds)
  | _, _ => s

/-- The state `s'` after a step of mThreadEngine, with what the step means for the AsyncThread. -/
def State.observe (s s' : State K Th) : WorkerThread.Action Unit Th → State K Th
  | .resume th answer =>
      let c := s.mThreadEngine.call th
      match c.creates answer with
      | some id => s'.create id (s.call th)
      | none => if c.isNone then s'.turn th (s.mThreadEngine.task th) else s'.finish th c
  | _ => s'

def step (s : State K Th) : Action K Th → Option (State K Th)
  | .start th type =>
      if s.isFree th then
        some ({ s with starts := s.starts + 1 }.goto th
          (.isCurrentThread (.start ⟨type, s.starts⟩)))
      else none
  | .stop th => if s.isFree th then some (s.goto th (.isCurrentThread .stop)) else none
  | .resume th => callStep s th (s.call th)
  | .run th => runStep s th (s.run th)
  | .engine a => if s.admits a then (s.engineStep a).map fun s' => s.observe s' a else none

/-- The object after construction; all threads are outside its functions. -/
def start : State K Th where
  mThreadEngine := WorkerThread.start
  mWorkerTask := .new
  mLifecycleLock := none
  call _ := .none
  run _ := .outside
  starts := 0
  session _ := 0
  log := []

def machine (K Th : Type) [DecidableEq Th] : Machine (State K Th) (Action K Th) where
  initial s := s = start
  step := step

end Step

end CWrapper.AsyncThread
