import CWrapper.Transition
import Mathlib.Data.Nat.Notation
import Mathlib.Logic.Function.Basic

/-!
WorkerThread.cpp. Any thread may call start, stop, requestStop, join and msleep, except from
inside a callback of IWorker; run may call them on the worker thread. A section under mStateLock
takes two steps, one to get the lock and one to run to the end of the section or to a wait. An
identity belongs to a thread until the thread is joined, and may be given to a new one after that.
-/
namespace CWrapper.WorkerThread

open Transition

inductive ThreadState
  | idle
  | starting
  | running
  | stopping
  | exited
  deriving DecidableEq, Repr

inductive Operation (W : Type)
  | start (worker : W)
  | stop
  | join

/-- Who called requestStop: the user, or stop() with mLifecycleLock held. -/
inductive Requester
  | user
  | stop

/-- The sections that call onStopRequested after them. -/
inductive Notifier
  | start
  | requestStop (k : Requester)

inductive CallbackPoint
  | enter
  | inside
  | leave

/-- start() from the claim of the object to pthread_create, or to resetToIdle when that or
onPrepare failed. -/
inductive Preparation
  | attrInit
  | onPrepare
  | inPrepare
  | create
  | reset (prepared : Bool)

inductive StartPoint (Th : Type)
  | claim
  | prepare (pt : Preparation)
  /-- The wait for mThreadReady; the new identity is given until it is stored. -/
  | handshake (createdId : Option Th)
  | cleanup (inside : Bool)

inductive JoinPoint (W Th : Type)
  | read
  | pthreadJoin (threadId : Option Th)
  | await
  | cleanup (worker : W) (inside : Bool)
  | reset

inductive SleepPoint
  | enter
  | wait
  | expired

inductive Call (W Th : Type)
  | none
  | isCurrentThread (op : Operation W)
  | lockLifecycle (op : Operation W)
  /-- The load of mState under mLifecycleLock. -/
  | load (op : Operation W)
  | start (worker : W) (pt : StartPoint Th)
  | requestStop (k : Requester)
  | onStopRequested (k : Notifier) (worker : W) (pt : CallbackPoint)
  | joinLocked (op : Operation W) (pt : JoinPoint W Th)
  /-- About to release mLifecycleLock and to return. -/
  | unlock
  | msleep (pt : SleepPoint)

/-- Where a thread that pthread_create made is in taskEntry. -/
inductive Task (W : Type)
  | none
  | entry
  | await
  | released (worker : Option W)
  | run (worker : W)
  | exit
  | exited

/-- What happened to the sessions, callbacks with their beginning and their end. -/
inductive Event (W Th : Type)
  | starting (worker : W)
  | attrInitFailed
  | prepareBegin (worker : W)
  | prepareEnd (worker : W) (ok : Bool)
  | createFailed
  | created (id : Th)
  | runBegin (id : Th) (worker : W)
  | runEnd (id : Th) (worker : W)
  | stopping
  | stopBegin (worker : W)
  | stopEnd (worker : W)
  | cleanupBegin (worker : W)
  | cleanupEnd (worker : W)
  deriving DecidableEq

/-- A condition variable is the set of the threads that are blocked in it and not woken. -/
structure State (W Th : Type) where
  mWorker : Option W
  mId : Option Th
  mLifecycleLock : Option Th
  mStateLock : Option Th
  mStateCv : Th → Bool
  mSleepCv : Th → Bool
  mState : ThreadState
  mStopRequested : Bool
  mThreadReady : Bool
  mStartReleased : Bool
  mWakeupRequested : Bool
  mCallbacksInProgress : ℕ
  call : Th → Call W Th
  task : Th → Task W
  log : List (Event W Th)

inductive Entry (W : Type)
  | start (worker : W)
  | stop
  | requestStop
  | join
  | msleep

inductive Answer (Th : Type)
  | yes
  | no
  | thread (id : Th)

inductive Action (W Th : Type)
  | call (th : Th) (e : Entry W)
  /-- Get mStateLock. -/
  | lock (th : Th)
  | resume (th : Th) (answer : Answer Th)
  /-- A spurious wake-up. -/
  | wakeup (th : Th)
  /-- The time of a wait in msleep is over. -/
  | expire (th : Th)

def Entry.point {W Th : Type} : Entry W → Call W Th
  | .start w => .lockLifecycle (.start w)
  | .stop => .isCurrentThread .stop
  | .requestStop => .requestStop .user
  | .join => .isCurrentThread .join
  | .msleep => .msleep .enter

section Points

variable {W Th : Type}

def Call.isNone : Call W Th → Bool
  | .none => true
  | _ => false

def Task.isNone : Task W → Bool
  | .none => true
  | _ => false

/-- A thread outside taskEntry, or inside run. -/
def Task.mayCall : Task W → Bool
  | .none | .run _ => true
  | _ => false

def Call.isSection : Call W Th → Bool
  | .isCurrentThread _ | .requestStop _ | .msleep _ => true
  | .start _ .claim | .start _ (.prepare (.reset _)) | .start _ (.handshake _) => true
  | .onStopRequested _ _ .leave => true
  | .joinLocked _ .read | .joinLocked _ .await | .joinLocked _ .reset => true
  | _ => false

def Task.isSection : Task W → Bool
  | .entry | .await | .exit => true
  | _ => false

/-- Where a function goes on after requestStop. -/
def Requester.back : Requester → Call W Th
  | .user => .none
  | .stop => .load .stop

def Notifier.back : Notifier → Call W Th
  | .start => .unlock
  | .requestStop k => k.back

/-- Where a function goes on after joinLocked. -/
def Operation.back : Operation W → Call W Th
  | .start w => .start w .claim
  | .stop | .join => .unlock

end Points

section Step

variable {W Th : Type} [DecidableEq Th]

namespace State

def goto (s : State W Th) (th : Th) (c : Call W Th) : State W Th :=
  { s with call := Function.update s.call th c }

def gotoTask (s : State W Th) (th : Th) (t : Task W) : State W Th :=
  { s with task := Function.update s.task th t }

def emit (s : State W Th) (e : Event W Th) : State W Th := { s with log := s.log ++ [e] }

def inSection (s : State W Th) (th : Th) : Bool :=
  if (s.call th).isNone then (s.task th).isSection else (s.call th).isSection

def asleep (s : State W Th) (th : Th) : Bool := s.mStateCv th || s.mSleepCv th

def shouldRun (s : State W Th) : Bool := s.mState = .running

def isCurrentThread (s : State W Th) (th : Th) : Bool :=
  (s.mState = .running || s.mState = .stopping) && s.mId = some th

def broadcastState (s : State W Th) : State W Th := { s with mStateCv := fun _ => false }

def broadcastSleep (s : State W Th) : State W Th := { s with mSleepCv := fun _ => false }

def waitState (s : State W Th) (th : Th) : State W Th :=
  { s with mStateCv := Function.update s.mStateCv th true }

def resetStateLocked (s : State W Th) : State W Th :=
  { s with
    mWorker := none
    mId := none
    mStopRequested := false
    mThreadReady := false
    mStartReleased := false
    mWakeupRequested := false
    mCallbacksInProgress := 0
    mState := .idle }

/-- The end of a section that may call onStopRequested. -/
def notify (s : State W Th) (th : Th) (k : Notifier) : State W Th :=
  match s.mWorker with
  | some w => { s with mCallbacksInProgress := s.mCallbacksInProgress + 1 }.goto th
      (.onStopRequested k w .enter)
  | none => s.goto th k.back

end State

def prepareStep (s : State W Th) (th : Th) (w : W) (answer : Answer Th) :
    Preparation → Option (State W Th)
  | .attrInit =>
      match answer with
      | .yes => some (s.goto th (.start w (.prepare .onPrepare)))
      | .no => some ((s.emit .attrInitFailed).goto th (.start w (.prepare (.reset false))))
      | .thread _ => none
  | .onPrepare => some ((s.emit (.prepareBegin w)).goto th (.start w (.prepare .inPrepare)))
  | .inPrepare =>
      match answer with
      | .yes => some ((s.emit (.prepareEnd w true)).goto th (.start w (.prepare .create)))
      | .no =>
          some ((s.emit (.prepareEnd w false)).goto th (.start w (.prepare (.reset false))))
      | .thread _ => none
  | .create =>
      match answer with
      | .yes => none
      | .no => some ((s.emit .createFailed).goto th (.start w (.prepare (.reset true))))
      | .thread id =>
          if (s.call id).isNone && (s.task id).isNone then
            some (((s.emit (.created id)).gotoTask id .entry).goto th
              (.start w (.handshake (some id))))
          else none
  | .reset prepared =>
      some (s.resetStateLocked.broadcastState.broadcastSleep.goto th
        (if prepared then .start w (.cleanup false) else .unlock))

/-- The section of start() after pthread_create. -/
def handshakeStep (s : State W Th) (th : Th) (w : W) (createdId : Option Th) : State W Th :=
  let s := match createdId with
    | some id => { s with mId := some id }
    | none => s
  if s.mThreadReady then
    if s.mStopRequested then
      ({ s with mState := .stopping, mStartReleased := true, mWakeupRequested := true }.emit
        .stopping).broadcastSleep.broadcastState.notify th .start
    else { s with mState := .running, mStartReleased := true }.broadcastState.goto th .unlock
  else (s.waitState th).goto th (.start w (.handshake none))

def startStep (s : State W Th) (th : Th) (w : W) (answer : Answer Th) :
    StartPoint Th → Option (State W Th)
  | .claim =>
      if s.mState = .idle then
        some (({ s with
          mWorker := some w
          mId := none
          mStopRequested := false
          mThreadReady := false
          mStartReleased := false
          mWakeupRequested := false
          mCallbacksInProgress := 0
          mState := .starting }.emit (.starting w)).goto th (.start w (.prepare .attrInit)))
      else some (s.goto th .unlock)
  | .prepare pt => prepareStep s th w answer pt
  | .handshake createdId => some (handshakeStep s th w createdId)
  | .cleanup false => some ((s.emit (.cleanupBegin w)).goto th (.start w (.cleanup true)))
  | .cleanup true => some ((s.emit (.cleanupEnd w)).goto th .unlock)

def requestStopStep (s : State W Th) (th : Th) (k : Requester) : State W Th :=
  match s.mState with
  | .idle | .exited => s.goto th k.back
  | .running =>
      (({ s with
        mStopRequested := true
        mWakeupRequested := true
        mState := .stopping }.emit .stopping).broadcastState.broadcastSleep).notify th
          (.requestStop k)
  | .starting | .stopping =>
      { s with mStopRequested := true, mWakeupRequested := true }.broadcastState.broadcastSleep.goto
        th k.back

def onStopRequestedStep (s : State W Th) (th : Th) (k : Notifier) (w : W) :
    CallbackPoint → State W Th
  | .enter => (s.emit (.stopBegin w)).goto th (.onStopRequested k w .inside)
  | .inside => (s.emit (.stopEnd w)).goto th (.onStopRequested k w .leave)
  | .leave =>
      let mCallbacksInProgress :=
        if s.mCallbacksInProgress > 0 then s.mCallbacksInProgress - 1
        else s.mCallbacksInProgress
      { s with mCallbacksInProgress := mCallbacksInProgress }.broadcastState.goto th k.back

/-- pthread_join returns when the thread has ended, or fails. -/
def joinLockedStep (s : State W Th) (th : Th) (op : Operation W) (answer : Answer Th) :
    JoinPoint W Th → Option (State W Th)
  | .read =>
      match s.mState with
      | .idle | .starting => some (s.goto th op.back)
      | _ => some (s.goto th (.joinLocked op (.pthreadJoin s.mId)))
  | .pthreadJoin threadId =>
      match answer, threadId with
      | .yes, some id =>
          match s.task id with
          | .exited => some ((s.gotoTask id .none).goto th (.joinLocked op .await))
          | _ => none
      | .no, _ => some (s.goto th op.back)
      | _, _ => none
  | .await =>
      if s.mCallbacksInProgress = 0 then
        match s.mWorker with
        | some w => some ({ s with mWorker := none }.goto th (.joinLocked op (.cleanup w false)))
        | none => some (s.goto th (.joinLocked op .reset))
      else some ((s.waitState th).goto th (.joinLocked op .await))
  | .cleanup w false =>
      some ((s.emit (.cleanupBegin w)).goto th (.joinLocked op (.cleanup w true)))
  | .cleanup w true => some ((s.emit (.cleanupEnd w)).goto th (.joinLocked op .reset))
  | .reset => some (s.resetStateLocked.broadcastState.broadcastSleep.goto th op.back)

def msleepStep (s : State W Th) (th : Th) : SleepPoint → State W Th
  | .enter =>
      if s.isCurrentThread th then
        if s.mState = .stopping then s.goto th .none
        else if s.mState ≠ .running ∨ s.mWakeupRequested = true then
          { s with mWakeupRequested := false }.goto th .none
        else { s with mSleepCv := Function.update s.mSleepCv th true }.goto th (.msleep .wait)
      else s.goto th .none
  | .wait =>
      if s.mState ≠ .running ∨ s.mWakeupRequested = true then
        { s with mWakeupRequested := false }.goto th .none
      else { s with mSleepCv := Function.update s.mSleepCv th true }.goto th (.msleep .wait)
  | .expired => { s with mWakeupRequested := false }.goto th .none

/-- After isCurrentThread() in stop() and join(); start() does not call it. -/
def Operation.decided (op : Operation W) (current : Bool) : Call W Th :=
  match op, current with
  | .stop, true => .requestStop .user
  | .join, true => .none
  | op, _ => .lockLifecycle op

def Operation.proceed (op : Operation W) (state : ThreadState) : Call W Th :=
  match op with
  | .start w => if state = .exited then .joinLocked op .read else .start w .claim
  | .stop | .join => if state = .idle then .unlock else .joinLocked op .read

def callStep (s : State W Th) (th : Th) (answer : Answer Th) : Call W Th → Option (State W Th)
  | .none => none
  | .isCurrentThread op => some (s.goto th (op.decided (s.isCurrentThread th)))
  | .lockLifecycle op =>
      if s.mLifecycleLock.isNone then
        some ({ s with mLifecycleLock := some th }.goto th (match op with
          | .stop => .requestStop .stop
          | op => .load op))
      else none
  | .load op => some (s.goto th (op.proceed s.mState))
  | .start w pt => startStep s th w answer pt
  | .requestStop k => some (requestStopStep s th k)
  | .onStopRequested k w pt => some (onStopRequestedStep s th k w pt)
  | .joinLocked op pt => joinLockedStep s th op answer pt
  | .unlock => some ({ s with mLifecycleLock := none }.goto th .none)
  | .msleep pt => some (msleepStep s th pt)

def awaitRelease (s : State W Th) (th : Th) : State W Th :=
  if s.mStartReleased then s.gotoTask th (.released s.mWorker)
  else (s.waitState th).gotoTask th .await

def taskStep (s : State W Th) (th : Th) : Task W → Option (State W Th)
  | .none | .exited => none
  | .entry => some (awaitRelease { s with mThreadReady := true }.broadcastState th)
  | .await => some (awaitRelease s th)
  | .released (some w) => some ((s.emit (.runBegin th w)).gotoTask th (.run w))
  | .released none => some (s.gotoTask th .exit)
  | .run w => some ((s.emit (.runEnd th w)).gotoTask th .exit)
  | .exit => some ({ s with mState := .exited }.broadcastState.broadcastSleep.gotoTask th .exited)

/-- The next step of a thread; in a section the lock is released at its end. -/
def body (s : State W Th) (th : Th) (answer : Answer Th) : Option (State W Th) :=
  if (s.call th).isNone then taskStep s th (s.task th) else callStep s th answer (s.call th)

def step (s : State W Th) : Action W Th → Option (State W Th)
  | .call th e =>
      if (s.call th).isNone && (s.task th).mayCall then some (s.goto th e.point) else none
  | .lock th =>
      if s.inSection th && !s.asleep th && s.mStateLock.isNone then
        some { s with mStateLock := some th }
      else none
  | .resume th answer =>
      if s.inSection th then
        if s.mStateLock = some th then body { s with mStateLock := none } th answer else none
      else body s th answer
  | .wakeup th => some { s with
      mStateCv := Function.update s.mStateCv th false
      mSleepCv := Function.update s.mSleepCv th false }
  | .expire th =>
      if s.mSleepCv th then
        some ({ s with mSleepCv := Function.update s.mSleepCv th false }.goto th
          (.msleep .expired))
      else none

def start : State W Th where
  mWorker := none
  mId := none
  mLifecycleLock := none
  mStateLock := none
  mStateCv _ := false
  mSleepCv _ := false
  mState := .idle
  mStopRequested := false
  mThreadReady := false
  mStartReleased := false
  mWakeupRequested := false
  mCallbacksInProgress := 0
  call _ := .none
  task _ := .none
  log := []

def machine (W Th : Type) [DecidableEq Th] : Machine (State W Th) (Action W Th) where
  initial s := s = start
  step := step

end Step

end CWrapper.WorkerThread
