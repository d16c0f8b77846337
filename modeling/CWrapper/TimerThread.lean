import CWrapper.Transition
import CWrapper.Timer

/-!
TimerThread.cpp. run() is cut at its sections under mLock, at msleep, and at the beginning and the
end of a callback. A call of start() or restart() from outside joins the session before it; the
handler may call all functions, with mLock held, and its start() and restart() end the session,
since mThread.stop() only requests the stop then and mThread.start() refuses. No two threads are in
start() or restart() at once. uint32_t and int are words of 32 bits, and uint64_t and int64_t are
words of 64 bits, which the conversions truncate and sign-extend.
-/
namespace CWrapper.TimerThread

open Transition

def INT32_MAX : ℤ := 2147483647

inductive RunPoint
  /-- No session. -/
  | outside
  /-- mThread.start() is under way. -/
  | starting (stopRequested : Bool)
  /-- The condition of the loop. -/
  | test
  /-- The section that computes timeoutMs. -/
  | arm
  /-- msleep before its wait. -/
  | msleep (timeoutMs : BitVec 32)
  /-- In the wait of msleep. -/
  | wait (expireTime : ℕ)
  /-- The section after msleep, to lock mLock. -/
  | fire
  /-- onTimerExpired is about to begin, mLock held from here to the end of the section. -/
  | call (keepGoing : Bool)
  | callback (keepGoing : Bool)
  /-- To test keepGoing. -/
  | finish (keepGoing : Bool)
  deriving DecidableEq, Repr

structure State where
  now : ℕ
  /-- mThread.shouldRun(). -/
  running : Bool
  mHandler : Bool
  mRepeat : Bool
  mStartTime : BitVec 64
  mIntervalMs : BitVec 32
  point : RunPoint
  deriving DecidableEq, Repr

inductive Action
  | tick (d : ℕ)
  | setHandler (handler : Bool)
  | setInterval (msec : BitVec 32)
  | setRepeat (rep : Bool)
  | start (msec : BitVec 32) (rep : Bool)
  | restart
  | stop
  /-- mThread.start() returns. -/
  | started (ok : Bool)
  /-- The next step of run(); `answer` is what the callback returns. -/
  | run (answer : Bool)
  deriving DecidableEq, Repr

/-- A thread other than the worker, or the handler, may lock mLock. -/
def RunPoint.unlocked : RunPoint → Bool
  | .call _ | .finish _ => false
  | _ => true

/-- SysTime::getTickCountMs() -/
def State.tickCount (s : State) : BitVec 64 := BitVec.ofNat 64 s.now

def State.expireTime (s : State) : BitVec 64 := s.mStartTime + s.mIntervalMs.signExtend 64

def timeoutOf (remainMs : BitVec 64) : BitVec 32 :=
  if remainMs.toInt ≤ 0 then 1#32
  else if remainMs.toInt > INT32_MAX then BitVec.ofInt 32 INT32_MAX
  else remainMs.setWidth 32

/-- The sections of start() and of restart(). -/
def State.configure (s : State) (msec : BitVec 32) (rep : Bool) : State :=
  { s with mRepeat := rep, mStartTime := s.tickCount, mIntervalMs := msec }

def State.rebase (s : State) : State := { s with mStartTime := s.tickCount }

/-- mThread.start() after the section `s` of a call from outside, or of the handler's call. -/
def startStep (s : State) : Option State :=
  match s.point with
  | .outside => some { s with point := .starting false }
  | .callback _ => some { s with running := false }
  | _ => none

def stopStep (s : State) : State :=
  match s.point with
  | .starting _ => { s with point := .starting true }
  | _ => { s with running := false }

def State.exit (s : State) : State := { s with running := false, point := .outside }

def runStep (s : State) (answer : Bool) : Option State :=
  match s.point with
  | .outside | .starting _ => none
  | .test => some (if s.running then { s with point := .arm } else s.exit)
  | .arm => some { s with point := .msleep (timeoutOf (s.expireTime - s.tickCount)) }
  | .msleep timeoutMs =>
      some (if timeoutMs.toInt ≤ 0 ∨ s.running = false then { s with point := .fire }
      else { s with point := .wait (s.now + timeoutMs.toNat) })
  -- mWakeupRequested is set only with a request to stop: WorkerSleep
  | .wait expireTime =>
      if expireTime ≤ s.now ∨ s.running = false then some { s with point := .fire } else none
  | .fire =>
      some (if s.running then
        { s with point := if s.mHandler then .call s.mRepeat else .finish s.mRepeat }
      else s.exit)
  | .call keepGoing => some { s with point := .callback keepGoing }
  | .callback keepGoing => some { s with point := .finish (keepGoing && answer) }
  | .finish keepGoing =>
      some (if keepGoing then
        { s with mStartTime := s.expireTime, point := .test }
      else s.exit)

inductive RunMoves (s : State) (answer : Bool) : State → Prop
  | goOn (hpoint : s.point = .test) (hrunning : s.running = true) :
      RunMoves s answer { s with point := .arm }
  | leave (hpoint : s.point = .test ∨ s.point = .fire ∨ s.point = .finish false) :
      RunMoves s answer s.exit
  | arm (hpoint : s.point = .arm) :
      RunMoves s answer { s with point := .msleep (timeoutOf (s.expireTime - s.tickCount)) }
  | skipWait (timeoutMs : BitVec 32) (hpoint : s.point = .msleep timeoutMs)
      (hends : timeoutMs.toInt ≤ 0 ∨ s.running = false) :
      RunMoves s answer { s with point := .fire }
  | beginWait (timeoutMs : BitVec 32) (hpoint : s.point = .msleep timeoutMs)
      (hrunning : s.running = true) :
      RunMoves s answer { s with point := .wait (s.now + timeoutMs.toNat) }
  | endWait (expireTime : ℕ) (hpoint : s.point = .wait expireTime)
      (hends : expireTime ≤ s.now ∨ s.running = false) : RunMoves s answer { s with point := .fire }
  | fire (hpoint : s.point = .fire) (hrunning : s.running = true) :
      RunMoves s answer
        { s with point := if s.mHandler then .call s.mRepeat else .finish s.mRepeat }
  | call (keepGoing : Bool) (hpoint : s.point = .call keepGoing) :
      RunMoves s answer { s with point := .callback keepGoing }
  | callback (keepGoing : Bool) (hpoint : s.point = .callback keepGoing) :
      RunMoves s answer { s with point := .finish (keepGoing && answer) }
  | advance (hpoint : s.point = .finish true) :
      RunMoves s answer { s with mStartTime := s.expireTime, point := .test }

/-- The case analysis of the steps of run(). -/
theorem runStep_cases {s s' : State} {answer : Bool} (hstep : runStep s answer = some s') :
    RunMoves s answer s' := by
  unfold runStep at hstep
  split at hstep
  · cases hstep
  · cases hstep
  · rename_i hpoint
    obtain rfl := Option.some.inj hstep
    split
    · rename_i hrunning
      exact .goOn hpoint hrunning
    · exact .leave (Or.inl hpoint)
  · rename_i hpoint
    obtain rfl := Option.some.inj hstep
    exact .arm hpoint
  · rename_i timeoutMs hpoint
    obtain rfl := Option.some.inj hstep
    split
    · rename_i hends
      exact .skipWait timeoutMs hpoint hends
    · rename_i hwaits
      rw [not_or, Bool.not_eq_false] at hwaits
      exact .beginWait timeoutMs hpoint hwaits.2
  · rename_i expireTime hpoint
    split_ifs at hstep with hends
    obtain rfl := Option.some.inj hstep
    exact .endWait expireTime hpoint hends
  · rename_i hpoint
    obtain rfl := Option.some.inj hstep
    split
    · rename_i hrunning
      exact .fire hpoint hrunning
    · exact .leave (Or.inr (Or.inl hpoint))
  · rename_i keepGoing hpoint
    obtain rfl := Option.some.inj hstep
    exact .call keepGoing hpoint
  · rename_i keepGoing hpoint
    obtain rfl := Option.some.inj hstep
    exact .callback keepGoing hpoint
  · rename_i keepGoing hpoint
    obtain rfl := Option.some.inj hstep
    cases keepGoing with
    | true => exact .advance hpoint
    | false => exact .leave (Or.inr (Or.inr hpoint))

def step (s : State) : Action → Option State
  | .tick d => if s.now + d ≤ Timer.MaxTick then some { s with now := s.now + d } else none
  | .setHandler handler => if s.point.unlocked then some { s with mHandler := handler } else none
  | .setInterval msec => if s.point.unlocked then some { s with mIntervalMs := msec } else none
  | .setRepeat rep => if s.point.unlocked then some { s with mRepeat := rep } else none
  | .start msec rep => startStep (s.configure msec rep)
  | .restart => startStep s.rebase
  | .stop => some (stopStep s)
  | .started ok =>
      match s.point with
      | .starting stopRequested =>
          some (if ok then { s with running := !stopRequested, point := .test } else s.exit)
      | _ => none
  | .run answer => runStep s answer

/-- TimerThread::TimerThread, the clock standing anywhere. -/
def State.start (now : ℕ) : State where
  now := now
  running := false
  mHandler := false
  mRepeat := false
  mStartTime := 0#64
  mIntervalMs := 0#32
  point := .outside

def system : Machine State Action where
  initial s := ∃ now ≤ Timer.MaxTick, s = State.start now
  step := step

end CWrapper.TimerThread
