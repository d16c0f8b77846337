import Mathlib.Data.PNat.Basic
import Mathlib.Logic.Function.Basic
import CWrapper.Timer
import CWrapper.Transition

/-!
MainLoop.h and MainLoop.cpp with the timers, the posted functions and the command pipe.
Threads of any number and timers of any number move one step at a time. User code that
the loop thread runs (posted functions, timer handlers, fd watchers) may call the public
functions too; these calls are steps of a thread of their own, taken while the loop
stands at the call, so every schedule of them is among the runs.
The loop is one whose constructor succeeded. Null timers never enter the list.
-/
namespace CWrapper.MainLoop

open Timer (Object Call Control Exec History Msec)

inductive LoopCommand
  | wakeup
  | terminate
  deriving DecidableEq, Repr

/-- An element of the batch that epoll_wait returns: the command pipe or a watcher. -/
inductive Event
  | command
  | watcher
  deriving DecidableEq, Repr

inductive EpollResult
  | timeout
  | interrupted
  | failed
  | events (evs : List Event)
  deriving DecidableEq, Repr

def WaitTimeMs : ℕ := 10 * 1000

def kMaxFunctionSize : ℕ := 128

def MaxEvents : ℕ := 32

inductive LoopPoint (T F : Type)
  /-- loop() has not been entered. -/
  | outside
  /-- runFunctions, to take the next function. -/
  | getFunction (executedAny : Bool)
  /-- A posted function runs. -/
  | invoke (func : F)
  /-- RunTimers, to lock mTimerLock. -/
  | takeTimer
  /-- takeExpiredTimerLocked(now), mTimerLock held. -/
  | readFront (now : ℕ)
  | exec (t : T) (e : Exec)
  /-- getNextTimerTimeout. -/
  | nextTimeout
  /-- Blocked in epoll_wait; `now` is the tick timeToWait was computed at. -/
  | epollWait (now timeToWait : ℕ)
  /-- The rest of the batch. -/
  | events (evs : List Event)
  /-- drainCommandPipe before its first read. -/
  | drainBegin (evs : List Event)
  /-- drainCommandPipe, to read again. -/
  | drain (terminated : Bool) (evs : List Event)
  | testTerminated (terminated : Bool) (evs : List Event)
  | exited
  deriving DecidableEq, Repr

inductive ThreadPoint (T F : Type)
  | idle
  | timer (t : T) (c : Control)
  /-- restart() has read the configuration and now calls start(). -/
  | restart (t : T) (msec : Msec) (rep : Bool)
  /-- post() has put the function and holds mFunctionLock. -/
  | post (func : F)
  /-- terminate() has stored mTerminated. -/
  | terminate
  deriving DecidableEq, Repr

inductive Holder (Th : Type)
  | loop
  | thread (th : Th)
  deriving DecidableEq, Repr

/-- A timer is destroyed once, by one thread. -/
inductive Lifetime (Th : Type)
  | alive
  | dying (th : Th)
  | dead
  deriving DecidableEq, Repr

structure Locks (Th : Type) where
  mControlLock : Option Th
  mWaitLock : Option Th
  life : Lifetime Th
  deriving DecidableEq, Repr

/-- The last three members are what a run has done so far; no step reads them. -/
structure State (T Th F : Type) where
  now : ℕ
  timer : T → Object
  locks : T → Locks Th
  mTimers : List T
  mTimerLock : Option (Holder Th)
  mFunctions : List F
  mFunctionLock : Option Th
  pipe : List LoopCommand
  mTerminated : Bool
  loop : LoopPoint T F
  thread : Th → ThreadPoint T F
  history : T → History
  insertions : ℕ
  terminateReturned : Bool

inductive Action (T Th F : Type)
  | tick (d : ℕ)
  | setHandler (t : T) (handler : Bool)
  | setInterval (t : T) (msec : Msec)
  | setRepeat (t : T) (rep : Bool)
  | start (th : Th) (t : T) (msec : Msec) (rep : Bool)
  | restart (th : Th) (t : T)
  | stop (th : Th) (t : T)
  | destroy (th : Th) (t : T)
  | post (th : Th) (func : F)
  | wakeup
  | terminate (th : Th)
  /-- The next step of the call a thread is in; `again` is EINTR or a spurious failure. -/
  | thread (th : Th) (again : Bool)
  /-- The loop thread calls loop(). -/
  | enter
  /-- The next step of the loop thread; `answer` is what a callback returns, or EINTR. -/
  | loop (answer : Bool)
  | epoll (r : EpollResult)
  deriving DecidableEq, Repr

/-- write() on the non-blocking pipe: a full pipe gives EAGAIN and drops the byte. -/
def writePipe (capacity : ℕ+) (pipe : List LoopCommand) (c : LoopCommand) : List LoopCommand :=
  if pipe.length < capacity then pipe ++ [c] else pipe

/-- The test of insertTimerLocked at position `i`: the timer goes in front of the first
element whose expiry is greater, or at the end. -/
def insertsAt {T : Type} (timer : T → Object) (mTimers : List T) (t : T) (i : ℕ) : Bool :=
  match mTimers[i]? with
  | some other => decide ((timer t).mExpiry < (timer other).mExpiry)
  | none => true

def getNextTimerTimeoutLocked {T : Type} (timer : T → Object) (mTimers : List T) (now : ℕ) : ℕ :=
  match mTimers with
  | [] => WaitTimeMs
  | t :: _ =>
      let expiry := (timer t).mExpiry
      if expiry ≤ now then 0
      else if expiry - now > WaitTimeMs then WaitTimeMs
      else expiry - now

/-- broadcast() on mStateChanged of `t`: every thread that waits on it is woken. -/
def wakeAll {T Th F : Type} [DecidableEq T] (t : T) (thread : Th → ThreadPoint T F) :
    Th → ThreadPoint T F :=
  fun th => match thread th with
    | .timer u (.blocked c) => if u = t then .timer u (.relock c) else .timer u (.blocked c)
    | p => p

section Step

variable {T Th F : Type} [DecidableEq T] [DecidableEq Th] (capacity : ℕ+)

def State.goto (s : State T Th F) (th : Th) (t : T) (c : Control) : Th → ThreadPoint T F :=
  Function.update s.thread th (.timer t c)

def controlStep (s : State T Th F) (th : Th) (t : T) (again : Bool) (c : Control) :
    Option (State T Th F) :=
  match Timer.controlStep (s.timer t) s.now again c with
  | some (o, c') => some { s with
      timer := Function.update s.timer t o
      thread := s.goto th t c'
      history := Function.update s.history t ((s.history t).control s.now c) }
  | none =>
    match c with
    | .remove k =>
        if s.mTimerLock = none then
          some { s with mTimers := s.mTimers.erase t, thread := s.goto th t (.removeWake k) }
        else none
    | .removeWake k =>
        if again then some s
        else some { s with
          pipe := writePipe capacity s.pipe .wakeup
          thread := s.goto th t (.broadcast k) }
    | .broadcast k =>
        some { s with
          thread := Function.update (wakeAll t s.thread) th (.timer t (Timer.afterStop k)) }
    | .lockWait k | .relock k =>
        if (s.locks t).mWaitLock = none then
          some { s with
            locks := Function.update s.locks t { s.locks t with mWaitLock := some th }
            thread := s.goto th t (.test k) }
        else none
    | .test k =>
        if Timer.released (s.timer t).mState then
          some { s with
            locks := Function.update s.locks t { s.locks t with mWaitLock := none }
            thread := s.goto th t (.load k) }
        else some { s with thread := s.goto th t (.block k) }
    | .block k =>
        some { s with
          locks := Function.update s.locks t { s.locks t with mWaitLock := none }
          thread := s.goto th t (.blocked k) }
    | .blocked k => some { s with thread := s.goto th t (.relock k) }
    | .addLock =>
        if s.mTimerLock = none then
          if t ∈ s.mTimers then some { s with thread := s.goto th t .addWake }
          else some { s with
            mTimerLock := some (.thread th)
            thread := s.goto th t (.addScan 0) }
        else none
    | .addScan i =>
        if insertsAt s.timer s.mTimers t i then
          some { s with
            mTimers := s.mTimers.insertIdx i t
            mTimerLock := none
            thread := s.goto th t .addWake
            history := Function.update s.history t { s.history t with stamp := s.insertions }
            insertions := s.insertions + 1 }
        else some { s with thread := s.goto th t (.addScan (i + 1)) }
    | .addWake =>
        if again then some s
        else some { s with
          pipe := writePipe capacity s.pipe .wakeup
          thread := s.goto th t .returnStart }
    | .returnStop | .returnStart =>
        some { s with
          locks := Function.update s.locks t { s.locks t with mControlLock := none }
          thread := Function.update s.thread th .idle }
    | .returnDestroy =>
        some { s with
          locks := Function.update s.locks t { s.locks t with life := .dead }
          thread := Function.update s.thread th .idle }
    | _ => none

/-- A thread takes mControlLock, the first step of start and stop. -/
def lockControl (s : State T Th F) (th : Th) (t : T) (k : Call) : Option (State T Th F) :=
  if (s.locks t).mControlLock = none ∧ (s.locks t).life = .alive then
    some { s with
      locks := Function.update s.locks t { s.locks t with mControlLock := some th }
      thread := s.goto th t (.load k) }
  else none

def threadStep (s : State T Th F) (th : Th) (again : Bool) : Option (State T Th F) :=
  match s.thread th with
  | .idle => none
  | .timer t c => controlStep capacity s th t again c
  | .restart t msec rep => lockControl s th t (.start msec rep)
  | .post _ =>
      if again then some s
      else some { s with
        pipe := writePipe capacity s.pipe .wakeup
        mFunctionLock := none
        thread := Function.update s.thread th .idle }
  | .terminate =>
      if again then some s
      else some { s with
        pipe := writePipe capacity s.pipe .terminate
        thread := Function.update s.thread th .idle
        terminateReturned := true }

/-- The steps of the loop thread while it holds the pointer of timer `t`. -/
def execStep (s : State T Th F) (t : T) (keep : Bool) (e : Exec) : Option (State T Th F) :=
  match Timer.executeStep (s.timer t) s.now keep e with
  | some (o, e') => some { s with
      timer := Function.update s.timer t o
      loop := .exec t e'
      history := Function.update s.history t ((s.history t).execute s.now e) }
  | none =>
    match e with
    | .popFront canExecute =>
        some { s with
          mTimers := s.mTimers.tail
          mTimerLock := none
          loop := if canExecute then .exec t .readHandler else .nextTimeout }
    | .broadcastPending =>
        some { s with thread := wakeAll t s.thread, loop := .exec t .requeueLoad }
    | .broadcastStopped | .requeueBroadcast | .broadcastQueued =>
        some { s with thread := wakeAll t s.thread, loop := .nextTimeout }
    | .requeueLock =>
        if s.mTimerLock = none then
          if t ∈ s.mTimers then some { s with loop := .exec t .requeueWake }
          else some { s with mTimerLock := some .loop, loop := .exec t (.requeueScan 0) }
        else none
    | .requeueScan i =>
        if insertsAt s.timer s.mTimers t i then
          some { s with
            mTimers := s.mTimers.insertIdx i t
            mTimerLock := none
            loop := .exec t .requeueWake
            history := Function.update s.history t { s.history t with stamp := s.insertions }
            insertions := s.insertions + 1 }
        else some { s with loop := .exec t (.requeueScan (i + 1)) }
    | .requeueWake =>
        if keep then some s
        else some { s with
          pipe := writePipe capacity s.pipe .wakeup
          loop := .exec t .requeueTestAgain }
    | .requeueRemove =>
        if s.mTimerLock = none then
          some { s with mTimers := s.mTimers.erase t, loop := .exec t .requeueRemoveWake }
        else none
    | .requeueRemoveWake =>
        if keep then some s
        else some { s with
          pipe := writePipe capacity s.pipe .wakeup
          loop := .exec t .storeStopped }
    | _ => none

def drainStep (s : State T Th F) (interrupted terminated : Bool) (evs : List Event) :
    State T Th F :=
  if interrupted then { s with loop := .drain terminated evs }
  else match s.pipe with
    | [] => { s with loop := .testTerminated terminated evs }
    | c :: rest => { s with
        pipe := rest
        loop := .drain (terminated || c == .terminate) evs }

def loopStep (s : State T Th F) (answer : Bool) : Option (State T Th F) :=
  match s.loop with
  | .outside | .exited | .epollWait _ _ => none
  | .getFunction executedAny =>
      if s.mFunctionLock = none then
        match s.mFunctions with
        | [] => some { s with loop := if executedAny then .getFunction false else .takeTimer }
        | func :: rest => some { s with mFunctions := rest, loop := .invoke func }
      else none
  | .invoke _ => some { s with loop := .getFunction true }
  | .takeTimer =>
      if s.mTimerLock = none then
        some { s with mTimerLock := some .loop, loop := .readFront s.now }
      else none
  | .readFront now =>
      match s.mTimers with
      | [] => some { s with mTimerLock := none, loop := .nextTimeout }
      | t :: _ =>
          if (s.timer t).mExpiry > now then
            some { s with mTimerLock := none, loop := .nextTimeout }
          else some { s with loop := .exec t .exchange }
  | .exec t e => execStep capacity s t answer e
  | .nextTimeout =>
      if s.mTimerLock = none then
        let timeToWait := getNextTimerTimeoutLocked s.timer s.mTimers s.now
        some { s with
          loop := if timeToWait = 0 then .takeTimer else .epollWait s.now timeToWait }
      else none
  | .events [] => some { s with loop := .getFunction false }
  | .events (.watcher :: evs) => some { s with loop := .events evs }
  | .events (.command :: evs) => some { s with loop := .drainBegin evs }
  | .drainBegin evs => some (drainStep s answer false evs)
  | .drain terminated evs => some (drainStep s answer terminated evs)
  | .testTerminated terminated evs =>
      some { s with loop := if terminated || s.mTerminated then .exited else .events evs }

/-- epoll_wait returns. A timeout needs an empty pipe, the pipe being level-triggered. -/
def epollStep (s : State T Th F) : EpollResult → Option (State T Th F)
  | .timeout => if s.pipe = [] then some { s with loop := .getFunction false } else none
  | .interrupted => some { s with loop := .getFunction false }
  | .failed => some { s with loop := .exited }
  | .events evs =>
      if evs ≠ [] ∧ evs.length ≤ MaxEvents ∧ evs.count .command ≤ 1 ∧
          (.command ∈ evs → s.pipe ≠ []) then
        some { s with loop := .events evs }
      else none

def step (s : State T Th F) : Action T Th F → Option (State T Th F)
  | .tick d => if s.now + d ≤ Timer.MaxTick then some { s with now := s.now + d } else none
  | .setHandler t handler => some { s with
      timer := Function.update s.timer t { s.timer t with mHandler := handler } }
  | .setInterval t msec => some { s with
      timer := Function.update s.timer t { s.timer t with mInterval := msec } }
  | .setRepeat t rep => some { s with
      timer := Function.update s.timer t { s.timer t with mRepeat := rep } }
  | .start th t msec rep =>
      match s.thread th with
      | .idle => lockControl s th t (.start msec rep)
      | _ => none
  | .restart th t =>
      match s.thread th with
      | .idle => some { s with
          thread := Function.update s.thread th
            (.restart t (s.timer t).mInterval (s.timer t).mRepeat) }
      | _ => none
  | .stop th t =>
      match s.thread th with
      | .idle => lockControl s th t .stop
      | _ => none
  -- the destructor takes no lock: its caller has no other control call in progress
  | .destroy th t =>
      match s.thread th with
      | .idle =>
          if (s.locks t).mControlLock = none ∧ (s.locks t).life = .alive then
            some { s with
              locks := Function.update s.locks t { s.locks t with life := .dying th }
              thread := s.goto th t (.load .destroy) }
          else none
      | _ => none
  | .post th func =>
      match s.thread th with
      | .idle =>
          if s.mFunctionLock = none then
            if s.mFunctions.length < kMaxFunctionSize then
              some { s with
                mFunctions := s.mFunctions ++ [func]
                mFunctionLock := some th
                thread := Function.update s.thread th (.post func) }
            else some s
          else none
      | _ => none
  | .wakeup => some { s with pipe := writePipe capacity s.pipe .wakeup }
  | .terminate th =>
      match s.thread th with
      | .idle => some { s with
          mTerminated := true
          thread := Function.update s.thread th .terminate }
      | _ => none
  | .thread th again => threadStep capacity s th again
  | .enter =>
      match s.loop with
      | .outside => some { s with loop := .getFunction false }
      | _ => none
  | .loop answer => loopStep capacity s answer
  | .epoll r =>
      match s.loop with
      | .epollWait _ _ => epollStep s r
      | _ => none

/-- The state after construction, the clock standing anywhere. -/
def State.start (now : ℕ) : State T Th F where
  now := now
  timer := fun _ => Object.new
  locks := fun _ => ⟨none, none, .alive⟩
  mTimers := []
  mTimerLock := none
  mFunctions := []
  mFunctionLock := none
  pipe := []
  mTerminated := false
  loop := .outside
  thread := fun _ => .idle
  history := fun _ => History.new
  insertions := 0
  terminateReturned := false

end Step

open Transition

def system (T Th F : Type) [DecidableEq T] [DecidableEq Th] (capacity : ℕ+) :
    Machine (State T Th F) (Action T Th F) where
  initial s := ∃ now ≤ Timer.MaxTick, s = State.start now
  step := step capacity

def oneSlot : ℕ+ := Nat.succPNat 0

theorem initial_start {T Th F : Type} [DecidableEq T] [DecidableEq Th] (capacity : ℕ+) :
    (system T Th F capacity).initial (State.start 0) := ⟨0, by decide, rfl⟩

end CWrapper.MainLoop
