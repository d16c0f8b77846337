import CWrapper.Waiting
import CWrapper.TimerThread
import CWrapper.WorkerThread

/-!
TimerThread.cpp with the threads that use it: its functions over mThread, mLock taken and released
as the code does, and the clock. The handler runs on the worker thread with mLock held and may call
all functions; other threads may call them at any time. A section under mLock is a step of its own
after the one that takes the lock. The worker object of every session is the TimerThread itself.
pthread_join fails for the caller itself and for an identity without a thread only.
-/
namespace CWrapper.TimerThreads

open Transition

variable {H Th : Type}

inductive Operation (H : Type)
  | setHandler (handler : Option H)
  | setInterval (msec : BitVec 32)
  | getInterval
  | setRepeat (rep : Bool)
  | getRepeat
  | start (msec : BitVec 32) (rep : Bool)
  | restart
  | stop

inductive Call (H : Type)
  | none
  | callStop (op : Operation H)
  /-- In mThread.stop(). -/
  | stopping (op : Operation H)
  | lock (op : Operation H)
  /-- The section under mLock, with mLock held. -/
  | locked (op : Operation H)
  | callStart
  /-- In mThread.start(). -/
  | starting

inductive RunPoint (H : Type)
  | outside
  /-- The condition of the loop. -/
  | test
  | lockArm
  /-- The section that computes timeoutMs. -/
  | arm
  | callMsleep (timeoutMs : BitVec 32)
  /-- In mThread.msleep() before its section. -/
  | msleep (timeoutMs : BitVec 32)
  /-- In mThread.msleep() since its section, which has computed the time to wait for. -/
  | wait (expireTime : ℕ)
  | lockFire
  /-- The section after msleep, in which mLock is held up to the test of keepGoing. -/
  | fire
  | call (keepGoing : Bool) (handler : H)
  /-- In onTimerExpired(). -/
  | callback (keepGoing : Bool) (handler : H)
  | finish (keepGoing : Bool)
  | leave

inductive Value
  | none
  | interval (msec : BitVec 32)
  | rep (rep : Bool)
  deriving DecidableEq

structure State (H Th : Type) where
  mThread : WorkerThread.State Unit Th
  mLock : ReentrantLock.Lock Th
  mHandler : Option H
  mRepeat : Bool
  mStartTime : BitVec 64
  mIntervalMs : BitVec 32
  now : ℕ
  call : Th → Call H
  run : Th → RunPoint H
  /-- What the last getter that a thread called has returned. -/
  value : Th → Value

inductive Action (H Th : Type)
  | tick (d : ℕ)
  | enter (th : Th) (op : Operation H)
  /-- The next step of a thread in a function of TimerThread. -/
  | resume (th : Th)
  /-- The next step of the worker thread in run(); `answer` is what the handler returns. -/
  | run (th : Th) (answer : Bool)
  /-- A step of mThread and its threads. -/
  | engine (a : WorkerThread.Action Unit Th)

def Call.isNone : Call H → Bool
  | .none => true
  | _ => false

def RunPoint.inHandler : RunPoint H → Bool
  | .callback _ _ => true
  | _ => false

def Operation.entry : Operation H → Call H
  | .start msec rep => .callStop (.start msec rep)
  | .restart => .callStop .restart
  | .stop => .callStop .stop
  | op => .lock op

def Operation.stopped : Operation H → Call H
  | .stop => .none
  | op => .lock op

def Operation.unlocked : Operation H → Call H
  | .start _ _ | .restart => .callStart
  | _ => .none

section Step

variable [DecidableEq Th]

namespace State

def goto (s : State H Th) (th : Th) (c : Call H) : State H Th :=
  { s with call := Function.update s.call th c }

def gotoRun (s : State H Th) (th : Th) (pt : RunPoint H) : State H Th :=
  { s with run := Function.update s.run th pt }

def engineStep (s : State H Th) (a : WorkerThread.Action Unit Th) : Option (State H Th) :=
  (WorkerThread.step s.mThread a).map fun e => { s with mThread := e }

/-- mLock.lock(), which waits while another thread has the lock. -/
def lock (s : State H Th) (th : Th) : Option (State H Th) :=
  (ReentrantLock.acquire s.mLock th).map fun l => { s with mLock := l }

def unlock (s : State H Th) : State H Th := { s with mLock := ReentrantLock.release s.mLock }

/-- SysTime::getTickCountMs() -/
def tickCount (s : State H Th) : BitVec 64 := BitVec.ofNat 64 s.now

def expireTime (s : State H Th) : BitVec 64 := s.mStartTime + s.mIntervalMs.signExtend 64

/-- In no function of the two objects and not in taskEntry, or in the handler. -/
def mayCall (s : State H Th) (th : Th) : Bool :=
  (s.call th).isNone && (s.mThread.call th).isNone &&
    ((s.mThread.task th).isNone || (s.run th).inHandler)

def assign (s : State H Th) (th : Th) : Operation H → State H Th
  | .setHandler handler => { s with mHandler := handler }
  | .setInterval msec => { s with mIntervalMs := msec }
  | .getInterval => { s with value := Function.update s.value th (.interval s.mIntervalMs) }
  | .setRepeat rep => { s with mRepeat := rep }
  | .getRepeat => { s with value := Function.update s.value th (.rep s.mRepeat) }
  | .start msec rep =>
      { s with mRepeat := rep, mStartTime := s.tickCount, mIntervalMs := msec }
  | .restart => { s with mStartTime := s.tickCount }
  | .stop => s

end State

def callStep (s : State H Th) (th : Th) : Call H → Option (State H Th)
  | .none => none
  | .callStop op => (s.goto th (.stopping op)).engineStep (.call th .stop)
  | .stopping op => if (s.mThread.call th).isNone then some (s.goto th op.stopped) else none
  | .lock op => (s.goto th (.locked op)).lock th
  | .locked op => some ((s.assign th op).unlock.goto th op.unlocked)
  | .callStart => (s.goto th .starting).engineStep (.call th (.start ()))
  | .starting => if (s.mThread.call th).isNone then some (s.goto th .none) else none

def runStep (s : State H Th) (th : Th) (answer : Bool) : RunPoint H → Option (State H Th)
  | .outside | .msleep _ | .leave => none
  | .test => some (s.gotoRun th (if s.mThread.shouldRun then .lockArm else .leave))
  | .lockArm => (s.gotoRun th .arm).lock th
  | .arm =>
      some (s.unlock.gotoRun th (.callMsleep (TimerThread.timeoutOf (s.expireTime - s.tickCount))))
  | .callMsleep timeoutMs =>
      if timeoutMs.toInt ≤ 0 then some (s.gotoRun th .lockFire)
      else (s.gotoRun th (.msleep timeoutMs)).engineStep (.call th .msleep)
  | .wait _ =>
      if (s.mThread.call th).isNone then some (s.gotoRun th .lockFire) else none
  | .lockFire => (s.gotoRun th .fire).lock th
  | .fire =>
      some (if s.mThread.shouldRun then
        s.gotoRun th (match s.mHandler with
          | some handler => .call s.mRepeat handler
          | none => .finish s.mRepeat)
      else s.unlock.gotoRun th .leave)
  | .call keepGoing handler => some (s.gotoRun th (.callback keepGoing handler))
  | .callback keepGoing _ =>
      if (s.call th).isNone then some (s.gotoRun th (.finish (keepGoing && answer))) else none
  | .finish keepGoing =>
      some (if keepGoing then { s with mStartTime := s.expireTime }.unlock.gotoRun th .test
      else s.unlock.gotoRun th .leave)

/-- What the threads do with mThread but for the calls of TimerThread: the thread that is created
is a new one, onPrepare returns true, pthread_join of a thread succeeds, run() returns when it has
come to its end, and a wait of msleep is not over before its time. -/
def State.admits (s : State H Th) : WorkerThread.Action Unit Th → Bool
  | .call _ _ => false
  | .resume th answer =>
      match s.mThread.call th, answer with
      | .none, _ =>
          match s.run th with
          | .outside | .leave => true
          | _ => false
      | .start _ (.prepare .create), .thread id => (s.call id).isNone
      | .start _ (.prepare .inPrepare), .no => false
      | .joinLocked _ (.pthreadJoin (some id)), .no => id = th || (s.mThread.task id).isNone
      | _, _ => true
  | .expire th =>
      match s.run th with
      | .wait expireTime => expireTime ≤ s.now
      | _ => false
  | _ => true

/-- The state `s'` after a step of mThread, in which the worker thread may have entered or left
run(), or begun the section of msleep. -/
def State.follow (s s' : State H Th) : WorkerThread.Action Unit Th → State H Th
  | .resume th _ =>
      match s.mThread.call th, s.mThread.task th, s.run th with
      | .none, .released (some _), _ => s'.gotoRun th .test
      | .none, .run _, _ => s'.gotoRun th .outside
      | .msleep .enter, _, .msleep timeoutMs => s'.gotoRun th (.wait (s.now + timeoutMs.toNat))
      | _, _, _ => s'
  | _ => s'

def step (s : State H Th) : Action H Th → Option (State H Th)
  | .tick d => if s.now + d ≤ Timer.MaxTick then some { s with now := s.now + d } else none
  | .enter th op => if s.mayCall th then some (s.goto th op.entry) else none
  | .resume th => callStep s th (s.call th)
  | .run th answer => runStep s th answer (s.run th)
  | .engine a => if s.admits a then (s.engineStep a).map fun s' => s.follow s' a else none

/-- TimerThread::TimerThread, the clock standing anywhere; all threads are outside its functions. -/
def start (now : ℕ) : State H Th where
  mThread := WorkerThread.start
  mLock := none
  mHandler := none
  mRepeat := false
  mStartTime := 0#64
  mIntervalMs := 0#32
  now := now
  call _ := .none
  run _ := .outside
  value _ := .none

def machine (H Th : Type) [DecidableEq Th] : Machine (State H Th) (Action H Th) where
  initial s := ∃ now ≤ Timer.MaxTick, s = start now
  step := step

end Step

end CWrapper.TimerThreads
