import CWrapper.LoopContract
import CWrapper.SampleServiceOrder

/-!
App in Main.cpp with its three members, and the threads of the program. The thread `runner` is that
of main(), which calls start(), stop() and loop(); it calls start() when the App is not started, and
loop() when start() has returned true. The worker thread is in run(), and the timer handler is
called in loop(). _sig_handler, which calls terminate(), is a thread of its own. The number of the
messages of a session stays below the bound of int.
-/
namespace CWrapper.App

open Transition SampleService

inductive Member
  | mTimer
  | mService
  | mThread
  deriving DecidableEq

inductive Call
  | none
  /-- About to call start() or stop() of the member. -/
  | call (op : Operation) (m : Member)
  | inside (op : Operation) (m : Member)
  deriving DecidableEq

inductive RunPoint
  | outside
  | shouldRun (n : ℕ)
  | callMsleep (n : ℕ)
  /-- In mThread.msleep(). -/
  | msleep (n : ℕ)
  | callRequest (n : ℕ)
  /-- In mService.request(). -/
  | request (n : ℕ)
  | leave
  deriving DecidableEq

structure State (Th : Type) where
  /-- The loop with mTimer and the one function that is posted. -/
  mLoop : LoopCalls.State Unit Th Unit
  mThread : WorkerThread.State Unit Th
  mService : SampleService.State Th
  call : Call
  run : Th → RunPoint
  /-- onTimerExpired() has called post(). -/
  posted : Bool
  /-- start() has been called, and stop() has not returned since. -/
  started : Bool
  /-- What start() returns. -/
  result : Bool

inductive Action (Th : Type)
  | start
  | stop
  /-- The next step of main() in start() or stop(), outside the members. -/
  | next
  /-- The next step of the worker thread in run(), outside the members. -/
  | run (th : Th)
  /-- onTimerExpired() calls post(). -/
  | post
  | thread (a : WorkerThread.Action Unit Th)
  | service (a : SampleService.Action Th)
  | loop (a : LoopCalls.Action Unit Th Unit)

def first : Operation → Member
  | .start => .mTimer
  | .stop => .mThread

def after : Operation → Member → Option Member
  | .start, .mTimer => some .mService
  | .start, .mService => some .mThread
  | .stop, .mThread => some .mService
  | .stop, .mService => some .mTimer
  | _, _ => none

/-- What start() and stop() call in mTimer. -/
def inTimer : Operation → LoopCalls.Request Unit Unit
  | .start => .start () 1000 true
  | .stop => .stop ()

def inService {Th : Type} (th : Th) : Operation → SampleService.Action Th
  | .start => .start th
  | .stop => .stop th

def inThread : Operation → WorkerThread.Entry Unit
  | .start => .start ()
  | .stop => .stop

def isOutside : MainLoop.LoopPoint Unit Unit → Bool
  | .outside | .exited => true
  | _ => false

section Step

variable {Th : Type} [DecidableEq Th] (runner : Th) (capacity : ℕ+)

namespace State

def goto (s : State Th) (c : Call) : State Th := { s with call := c }

def gotoRun (s : State Th) (th : Th) (pt : RunPoint) : State Th :=
  { s with run := Function.update s.run th pt }

def threadStep (s : State Th) (a : WorkerThread.Action Unit Th) : Option (State Th) :=
  (WorkerThread.step s.mThread a).map fun t => { s with mThread := t }

def serviceStep (s : State Th) (a : SampleService.Action Th) : Option (State Th) :=
  (SampleService.step s.mService a).map fun v => { s with mService := v }

def loopStep (s : State Th) (a : LoopCalls.Action Unit Th Unit) : Option (State Th) :=
  (LoopCalls.step runner capacity s.mLoop a).map fun l => { s with mLoop := l }

def mayCall (s : State Th) : Bool := s.call = .none && isOutside s.mLoop.mLoop.loop

def invoke (s : State Th) (op : Operation) : Member → Option (State Th)
  | .mTimer => s.loopStep runner capacity (.call runner (inTimer op))
  | .mService => s.serviceStep (inService runner op)
  | .mThread => s.threadStep (.call runner (inThread op))

def returned (s : State Th) : Member → Bool
  | .mTimer => s.mLoop.isFree runner
  | .mService => s.mService.call runner = .none
  | .mThread => (s.mThread.call runner).isNone

def leave (s : State Th) (op : Operation) (m : Member) : State Th :=
  match after op m, op with
  | some m', _ => s.goto (.call op m')
  | none, .start => s.goto .none
  | none, .stop => { s.goto .none with started := false }

def isNew (s : State Th) (id : Th) : Bool :=
  id ≠ runner && (s.mThread.task id).isNone && s.mService.isFree id && s.mLoop.isFree id

/-- The calls of mThread come from App; the thread that is created is a new one, onPrepare returns
true, pthread_join of a thread succeeds, and run() returns when it has come to its end. -/
def admitsThread (s : State Th) : WorkerThread.Action Unit Th → Bool
  | .call _ _ => false
  | .resume th answer =>
      match s.mThread.call th, answer with
      | .none, _ => s.run th = .outside || s.run th = .leave
      | .start _ (.prepare .create), .thread id => s.isNew runner id
      | .start _ (.prepare .inPrepare), .no => false
      | .joinLocked _ (.pthreadJoin (some id)), .no => id = th || (s.mThread.task id).isNone
      | _, _ => true
  | _ => true

def admitsService (s : State Th) : SampleService.Action Th → Bool
  | .start _ | .stop _ | .request _ _ => false
  | .thread (.engine (.resume _ (.thread id))) => s.isNew runner id
  | _ => true

/-- The calls of mTimer and of post() come from App, which has set its handler; the handler returns
true when it has called post(). -/
def admitsLoop (s : State Th) : LoopCalls.Action Unit Th Unit → Bool
  | .call _ _ => false
  | .enter _ => true
  | .main a =>
      match a with
      | .enter => s.call = .none && s.started && s.result
      | .loop answer => (LoopCalls.handled s.mLoop.mLoop.loop).isNone || s.posted && answer
      | .terminate th => th ≠ runner
      | .tick _ | .thread _ _ | .epoll _ => true
      | _ => false

/-- The state `s'` after a step of mThread, in which the worker thread may have entered or left
run(), or start() of mThread has come to its end. -/
def follow (s s' : State Th) : WorkerThread.Action Unit Th → State Th
  | .resume th _ =>
      match s.mThread.call th, s.mThread.task th with
      | .none, .released (some _) => s'.gotoRun th (.shouldRun 0)
      | .none, .run _ => s'.gotoRun th .outside
      | c, _ =>
          match s.call, s'.mThread.call th with
          | .inside .start .mThread, .unlock => { s' with result := c.succeeds }
          | _, _ => s'
  | _ => s'

/-- The state `s'` after a step of the loop, which may have left the handler. -/
def handle (s' : State Th) : LoopCalls.Action Unit Th Unit → State Th
  | .main (.loop _) => { s' with posted := false }
  | _ => s'

end State

def callStep (s : State Th) : Call → Option (State Th)
  | .none => none
  | .call op m => (s.goto (.inside op m)).invoke runner capacity op m
  | .inside op m => if s.returned runner m then some (s.leave op m) else none

def runStep (s : State Th) (th : Th) : RunPoint → Option (State Th)
  | .outside | .leave => none
  | .shouldRun n => some (s.gotoRun th (if s.mThread.shouldRun then .callMsleep n else .leave))
  | .callMsleep n => (s.gotoRun th (.msleep n)).threadStep (.call th .msleep)
  | .msleep n =>
      if (s.mThread.call th).isNone then some (s.gotoRun th (.callRequest n)) else none
  | .callRequest n => (s.gotoRun th (.request n)).serviceStep (.request th n)
  | .request n =>
      if s.mService.call th = .none then some (s.gotoRun th (.shouldRun (n + 1))) else none

def step (s : State Th) : Action Th → Option (State Th)
  | .start =>
      if s.mayCall && !s.started then
        some { s.goto (.call .start (first .start)) with started := true, result := false }
      else none
  | .stop => if s.mayCall then some (s.goto (.call .stop (first .stop))) else none
  | .next => callStep runner capacity s s.call
  | .run th => runStep s th (s.run th)
  | .post =>
      if LoopCalls.handled s.mLoop.mLoop.loop = some () && !s.posted then
        { s with posted := true }.loopStep runner capacity (.call runner (.post ()))
      else none
  | .thread a =>
      if s.admitsThread runner a then (s.threadStep a).map fun s' => s.follow s' a else none
  | .service a => if s.admitsService runner a then s.serviceStep a else none
  | .loop a =>
      if s.admitsLoop runner a then (s.loopStep runner capacity a).map fun s' => s'.handle a
      else none

/-- main() has constructed the loop and the App, which has set the handler of mTimer. -/
def start (now : ℕ) : State Th where
  mLoop :=
    { mLoop := { MainLoop.State.start now with
        timer := fun _ => { Timer.Object.new with mHandler := true } }
      request := fun _ => none }
  mThread := WorkerThread.start
  mService := SampleService.start now
  call := .none
  run _ := .outside
  posted := false
  started := false
  result := false

def machine : Machine (State Th) (Action Th) where
  initial s := ∃ now ≤ Timer.MaxTick, s = start now
  step := step runner capacity

end Step

end CWrapper.App
