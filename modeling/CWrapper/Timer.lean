import Mathlib.Data.UInt

/-!
Timer.h and Timer.cpp. The methods are cut at every atomic access of the object, every
broadcast on mStateChanged and every section under a lock; what stands between two cuts
is one step. A program point names the access that comes next. This module holds the
steps that touch nothing but the object; the ones that enter the timer list, the pipe or
a lock are in MainLoop.
-/
namespace CWrapper.Timer

inductive State
  | stopped
  | queued
  | executing
  | requeuePending
  deriving DecidableEq, Repr

/-- uint32_t milliseconds -/
structure Msec where
  toNat : ℕ
  isLt : toNat < UInt32.size
  deriving DecidableEq, Repr

/-- The conversion to uint32_t. -/
instance (n : ℕ) : OfNat Msec n := ⟨⟨n % UInt32.size, Nat.mod_lt n (by decide)⟩⟩

def Infinite : Msec := 0xFFFFFFFF

/-- The last reading of getTickCountMs: the monotonic clock counts nanoseconds in a signed
64-bit word, of which these are the milliseconds. -/
def MaxTick : ℕ := 9223372036854

/-- Ticks are uint64_t milliseconds, and so is the sum. -/
def makeExpiry (interval : Msec) (now : ℕ) : ℕ :=
  if interval = Infinite then UInt64.size - 1 else (now + interval.toNat) % UInt64.size

/-- The members that are read or written. Of the handler only its presence counts: what
a callback answers is chosen by the run. -/
structure Object where
  mState : State
  mStopRequested : Bool
  mExpiry : ℕ
  mHandler : Bool
  mInterval : Msec
  mRepeat : Bool
  deriving DecidableEq, Repr

def Object.new : Object where
  mState := .stopped
  mStopRequested := false
  mExpiry := UInt64.size - 1
  mHandler := false
  mInterval := Infinite
  mRepeat := false

/-- A call that runs the loop over mState: stop itself, or stopAndWait on behalf of
start or of the destructor. -/
inductive Call
  | stop
  | start (msec : Msec) (rep : Bool)
  | destroy
  deriving DecidableEq, Repr

/-- Program points of stop, stopAndWait, start and the destructor. -/
inductive Control
  /-- mState.load -/
  | load (c : Call)
  /-- compare_exchange_weak from Queued to Stopped -/
  | exchange (c : Call)
  /-- mStopRequested.store(true) after the exchange -/
  | requestQueued (c : Call)
  /-- the section of removeTimer -/
  | remove (c : Call)
  /-- the pipe write of removeTimer -/
  | removeWake (c : Call)
  | broadcast (c : Call)
  /-- mStopRequested.store(true) when Executing or RequeuePending was loaded -/
  | requestRunning (c : Call)
  /-- lock mWaitLock -/
  | lockWait (c : Call)
  /-- the predicate of the wait, mWaitLock held -/
  | test (c : Call)
  /-- release mWaitLock and block, the predicate having been false -/
  | block (c : Call)
  | blocked (c : Call)
  /-- woken, to take mWaitLock again -/
  | relock (c : Call)
  /-- the configuration section of start, with its store of mExpiry -/
  | configure (msec : Msec) (rep : Bool)
  /-- mStopRequested.store(false) -/
  | clearRequest
  /-- mState.store(Queued) -/
  | queue
  /-- addTimer: lock mTimerLock and look for the timer -/
  | addLock
  /-- insertTimerLocked: compare with the element at position i -/
  | addScan (i : ℕ)
  /-- the pipe write of addTimer -/
  | addWake
  | returnStop
  | returnStart
  | returnDestroy
  deriving DecidableEq, Repr

/-- Where a call goes on once the timer is stopped. -/
def afterStop : Call → Control
  | .stop => .returnStop
  | .start msec rep => if msec = Infinite then .returnStart else .configure msec rep
  | .destroy => .returnDestroy

/-- The predicate of the wait in stopAndWait. -/
def released : State → Bool
  | .executing | .requeuePending => false
  | .stopped | .queued => true

/-- Steps of a control call on the object alone. The weak exchange may fail spuriously,
which `again` decides. -/
def controlStep (o : Object) (now : ℕ) (again : Bool) : Control → Option (Object × Control)
  | .load c => some (o, match o.mState with
      | .stopped => afterStop c
      | .queued => .exchange c
      | .executing | .requeuePending => .requestRunning c)
  | .exchange c =>
      if o.mState = .queued ∧ again = false then
        some ({ o with mState := .stopped }, .requestQueued c)
      else some (o, .load c)
  | .requestQueued c => some ({ o with mStopRequested := true }, .remove c)
  | .requestRunning c => some ({ o with mStopRequested := true }, match c with
      | .stop => .returnStop
      | .start .. | .destroy => .lockWait c)
  | .configure msec rep =>
      some ({ o with mInterval := msec, mRepeat := rep, mExpiry := makeExpiry msec now },
        .clearRequest)
  | .clearRequest => some ({ o with mStopRequested := false }, .queue)
  | .queue => some ({ o with mState := .queued }, .addLock)
  | _ => none

/-- Program points of the loop thread while it holds the pointer of one timer: the rest
of takeExpiredTimerLocked, then executeFromLoop and requeueFromLoop. -/
inductive Exec
  /-- tryBeginExecuteFromLoop: compare_exchange_strong from Queued to Executing -/
  | exchange
  /-- tryBeginExecuteFromLoop: mStopRequested.store(false) -/
  | clearRequest
  /-- pop_front, and the end of the section -/
  | popFront (canExecute : Bool)
  /-- executeFromLoop, the section that reads mHandler -/
  | readHandler
  /-- onTimerExpired is about to begin -/
  | call
  /-- inside onTimerExpired -/
  | callback
  /-- the section that reads mInterval, mRepeat and mHandler -/
  | readConfig (keepByHandler : Bool)
  /-- mStopRequested.load in the computation of keep -/
  | testStop (keepByHandler : Bool) (interval : Msec) (rep hasHandler : Bool)
  /-- mState.store(Stopped), in executeFromLoop or requeueFromLoop -/
  | storeStopped
  | broadcastStopped
  /-- makeExpiry reads the clock -/
  | readTick (interval : Msec)
  | storeExpiry (expiry : ℕ)
  /-- mState.store(RequeuePending) -/
  | storePending
  | broadcastPending
  /-- requeueFromLoop: mState.load -/
  | requeueLoad
  /-- the broadcast when another state than RequeuePending was loaded -/
  | requeueBroadcast
  /-- the first test of mStopRequested -/
  | requeueTest
  /-- addTimer: lock mTimerLock and look for the timer -/
  | requeueLock
  | requeueScan (i : ℕ)
  | requeueWake
  /-- the second test of mStopRequested -/
  | requeueTestAgain
  /-- the section of removeTimer -/
  | requeueRemove
  | requeueRemoveWake
  /-- mState.store(Queued) -/
  | storeQueued
  | broadcastQueued
  deriving DecidableEq, Repr

/-- Steps of the loop thread on the object alone; `keep` is what the callback answers. -/
def executeStep (o : Object) (now : ℕ) (keep : Bool) : Exec → Option (Object × Exec)
  | .exchange =>
      if o.mState = .queued then some ({ o with mState := .executing }, .clearRequest)
      else some (o, .popFront false)
  | .clearRequest => some ({ o with mStopRequested := false }, .popFront true)
  | .readHandler => some (o, if o.mHandler then .call else .readConfig false)
  | .call => some (o, .callback)
  | .callback => some (o, .readConfig keep)
  | .readConfig keepByHandler =>
      some (o, .testStop keepByHandler o.mInterval o.mRepeat o.mHandler)
  | .testStop keepByHandler interval rep hasHandler =>
      some (o, if !o.mStopRequested && keepByHandler && rep && interval != Infinite && hasHandler
        then .readTick interval else .storeStopped)
  | .storeStopped => some ({ o with mState := .stopped }, .broadcastStopped)
  | .readTick interval => some (o, .storeExpiry (makeExpiry interval now))
  | .storeExpiry expiry => some ({ o with mExpiry := expiry }, .storePending)
  | .storePending => some ({ o with mState := .requeuePending }, .broadcastPending)
  | .requeueLoad =>
      some (o, if o.mState = .requeuePending then .requeueTest else .requeueBroadcast)
  | .requeueTest => some (o, if o.mStopRequested then .storeStopped else .requeueLock)
  | .requeueTestAgain => some (o, if o.mStopRequested then .requeueRemove else .storeQueued)
  | .storeQueued => some ({ o with mState := .queued }, .broadcastQueued)
  | _ => none

/-- What a run has done with a timer so far. No step reads it. -/
structure History where
  /-- the tick and interval of the last arming -/
  arming : Option (ℕ × Msec)
  /-- start() calls that stored Queued -/
  armed : ℕ
  begun : ℕ
  /-- callbacks that have begun and not returned -/
  running : ℕ
  /-- the number of the last insertion into the list -/
  stamp : ℕ
  deriving DecidableEq, Repr

def History.new : History := ⟨none, 0, 0, 0, 0⟩

def History.control (h : History) (now : ℕ) : Control → History
  | .configure msec _ => { h with arming := some (now, msec) }
  | .queue => { h with armed := h.armed + 1 }
  | _ => h

def History.execute (h : History) (now : ℕ) : Exec → History
  | .call => { h with begun := h.begun + 1, running := h.running + 1 }
  | .callback => { h with running := h.running - 1 }
  | .readTick interval => { h with arming := some (now, interval) }
  | _ => h

end CWrapper.Timer
