import Mathlib.Data.Int.Notation
import CWrapper.CircularQueue
import CWrapper.Transition

/-!
SyncQueue.h with the threads that use it. A section under mLock, up to a wait or to the
unlocking and with the signal that is sent inside it, is one step; so are the broadcasts,
which are sent after unlocking, every call of dispose, and every waking of a waiter. A
condition variable is the list of the threads that wait on it. A wait returns because it was
signalled, spuriously, or because its time is over; then mLock is taken again.
The lists of what was enqueued, removed, disposed and returned are for stating what happens;
no branch reads them.
-/
namespace CWrapper.SyncQueue

def INFINITE : ℤ := -1

inductive WaitPoint
  /-- To lock mLock. -/
  | enter
  /-- In a wait until `expireTime`. -/
  | blocked (expireTime : Option ℕ)
  /-- Out of the wait, to lock mLock again. -/
  | woken (timedOut : Bool)
  deriving DecidableEq, Repr

/-- Program points of a thread. The number of an item that awaits its dispose is its place
among the removed ones. -/
inductive ThreadPoint (T : Type)
  | idle
  | put (t : T) (timeoutMs : ℤ) (point : WaitPoint)
  | get (t : Option T) (timeoutMs : ℤ) (point : WaitPoint)
  | putForce (t : T)
  | putForceDispose (k : ℕ) (oldData : T)
  /-- To lock mLock; `removedAny` tells whether this call has removed an item. -/
  | flush (removedAny : Bool)
  | flushDispose (k : ℕ) (oldValue : T)
  | flushBroadcast
  | setEOS (eos : Bool)
  | broadcastFull
  | broadcastEmpty
  deriving DecidableEq, Repr

inductive Removal
  | got
  | evicted
  | flushed
  deriving DecidableEq, Repr

/-- What a call returns; putForce runs off its end when it has put the item. -/
inductive Returned (T : Type)
  | put (answer : Bool)
  | get (answer : Bool) (t : Option T)
  | putForce (answer : Option Bool)
  | flush
  | setEOS
  deriving DecidableEq, Repr

/-- The last four members are the history, which no step reads. -/
structure State (T Th : Type) (Capacity : ℕ+) where
  now : ℕ
  mQueue : CircularQueue T Capacity
  mEOS : Bool
  mCvFull : List Th
  mCvEmpty : List Th
  thread : Th → ThreadPoint T
  enqueued : List T
  removed : List (Removal × T)
  disposed : List (ℕ × T)
  returned : List (Th × Returned T)

inductive Action (T Th : Type)
  | tick (d : ℕ)
  | put (th : Th) (t : T) (timeoutMs : ℤ)
  | get (th : Th) (t : Option T) (timeoutMs : ℤ)
  | putForce (th : Th) (t : T)
  | flush (th : Th)
  | setEOS (th : Th) (eos : Bool)
  /-- The next step of a thread; a signal wakes the waiter at place `choice`. -/
  | resume (th : Th) (choice : ℕ)
  | spurious (th : Th)
  | timeout (th : Th)
  deriving DecidableEq, Repr

def WaitPoint.wake (timedOut : Bool) : WaitPoint → WaitPoint
  | .blocked _ => .woken timedOut
  | point => point

def ThreadPoint.wake {T : Type} (timedOut : Bool) : ThreadPoint T → ThreadPoint T
  | .put t timeoutMs point => .put t timeoutMs (point.wake timedOut)
  | .get t timeoutMs point => .get t timeoutMs (point.wake timedOut)
  | p => p

section Step

variable {T Th : Type} [DecidableEq Th] {Capacity : ℕ+}

/-- An element is moved by its assignment, which leaves `moved` of it in the source. -/
def assign (moved : T → T) : MoveAssign T Empty := fun _ source => (source, moved source, [])

def State.goto (s : State T Th Capacity) (th : Th) (p : ThreadPoint T) : State T Th Capacity :=
  { s with thread := Function.update s.thread th p }

def State.return (s : State T Th Capacity) (th : Th) (r : Returned T) : State T Th Capacity :=
  { s with
    thread := Function.update s.thread th .idle
    returned := s.returned ++ [(th, r)] }

def State.signalEmpty (s : State T Th Capacity) (choice : ℕ) : State T Th Capacity :=
  match s.mCvEmpty[choice]? with
  | none => s
  | some u => { s with
      mCvEmpty := s.mCvEmpty.eraseIdx choice
      thread := Function.update s.thread u ((s.thread u).wake false) }

def State.signalFull (s : State T Th Capacity) (choice : ℕ) : State T Th Capacity :=
  match s.mCvFull[choice]? with
  | none => s
  | some u => { s with
      mCvFull := s.mCvFull.eraseIdx choice
      thread := Function.update s.thread u ((s.thread u).wake false) }

/-- signal() wakes a waiter when there is one. -/
def mayChoose (waiters : List Th) (choice : ℕ) : Bool := waiters.isEmpty || choice < waiters.length

def wakeAll (waiters : List Th) (thread : Th → ThreadPoint T) : Th → ThreadPoint T :=
  fun th => if th ∈ waiters then (thread th).wake false else thread th

/-- CondVar::wait(mutex, timeoutMs) when it is called. -/
def expireTime (now : ℕ) (timeoutMs : ℤ) : Option ℕ :=
  if timeoutMs < 0 then none else some (now + timeoutMs.toNat)

variable [Inhabited T] (moved : T → T)

def State.enqueue (s : State T Th Capacity) (t : T) : State T Th Capacity :=
  { s with
    mQueue := (s.mQueue.put (assign moved) t).2
    enqueued := s.enqueued ++ [t] }

def State.dequeue (s : State T Th Capacity) (t : Option T) (by_ : Removal) : State T Th Capacity :=
  { s with
    mQueue := (s.mQueue.get (assign moved) t).2
    removed := s.removed ++ [(by_, s.mQueue.mBuffer s.mQueue.mFront)] }

/-- The section of put from the test of its loop on. -/
def putSection (s : State T Th Capacity) (th : Th) (t : T) (timeoutMs : ℤ) (choice : ℕ) :
    Option (State T Th Capacity) :=
  if s.mQueue.isFull && !s.mEOS then
    if timeoutMs = INFINITE then
      some { s.goto th (.put t timeoutMs (.blocked none)) with mCvFull := s.mCvFull ++ [th] }
    else if timeoutMs = 0 then some (s.return th (.put false))
    else some { s.goto th (.put t timeoutMs (.blocked (expireTime s.now timeoutMs))) with
      mCvFull := s.mCvFull ++ [th] }
  else if s.mQueue.isFull then some (s.return th (.put false))
  else if s.mEOS then some (s.return th (.put false))
  else if mayChoose s.mCvEmpty choice then
    some (((s.enqueue moved t).signalEmpty choice).return th (.put true))
  else none

def getSection (s : State T Th Capacity) (th : Th) (t : Option T) (timeoutMs : ℤ) (choice : ℕ) :
    Option (State T Th Capacity) :=
  if s.mQueue.isEmpty && !s.mEOS then
    if timeoutMs = INFINITE then
      some { s.goto th (.get t timeoutMs (.blocked none)) with mCvEmpty := s.mCvEmpty ++ [th] }
    else if timeoutMs = 0 then some (s.return th (.get false t))
    else some { s.goto th (.get t timeoutMs (.blocked (expireTime s.now timeoutMs))) with
      mCvEmpty := s.mCvEmpty ++ [th] }
  else if s.mQueue.isEmpty then some (s.return th (.get false t))
  else if s.mEOS then some (s.return th (.get false t))
  else if mayChoose s.mCvFull choice then
    some (((s.dequeue moved t .got).signalFull choice).return th
      (.get true (s.mQueue.get (assign moved) t).1.2.1))
  else none

/-- The section of putForce: `oldData` is a local variable of it. -/
def putForceSection (s : State T Th Capacity) (th : Th) (t : T) (choice : ℕ) :
    Option (State T Th Capacity) :=
  if s.mEOS then some (s.return th (.putForce (some false)))
  else if mayChoose s.mCvEmpty choice then
    if s.mQueue.isFull then
      let oldData := (s.mQueue.get (assign moved) (some default)).1.2.1.getD default
      some ((((s.dequeue moved (some default) .evicted).enqueue moved t).signalEmpty choice).goto th
        (.putForceDispose s.removed.length oldData))
    else some (((s.enqueue moved t).signalEmpty choice).return th (.putForce none))
  else none

/-- A section of flush: one item, or the end of the loop. -/
def flushSection (s : State T Th Capacity) (th : Th) : State T Th Capacity :=
  if s.mQueue.isEmpty then s.goto th .flushBroadcast
  else
    let oldValue := (s.mQueue.get (assign moved) (some default)).1.2.1.getD default
    (s.dequeue moved (some default) .flushed).goto th (.flushDispose s.removed.length oldValue)

def State.dispose (s : State T Th Capacity) (k : ℕ) (d : T) : State T Th Capacity :=
  { s with disposed := s.disposed ++ [(k, d)] }

def threadStep (s : State T Th Capacity) (th : Th) (choice : ℕ) : Option (State T Th Capacity) :=
  match s.thread th with
  | .idle | .put _ _ (.blocked _) | .get _ _ (.blocked _) => none
  | .put t timeoutMs .enter | .put t timeoutMs (.woken false) =>
      putSection moved s th t timeoutMs choice
  | .put _ _ (.woken true) => some (s.return th (.put false))
  | .get t timeoutMs .enter | .get t timeoutMs (.woken false) =>
      getSection moved s th t timeoutMs choice
  | .get t _ (.woken true) => some (s.return th (.get false t))
  | .putForce t => putForceSection moved s th t choice
  | .putForceDispose k oldData => some ((s.dispose k oldData).return th (.putForce none))
  | .flush _ => some (flushSection moved s th)
  | .flushDispose k oldValue => some ((s.dispose k oldValue).goto th (.flush true))
  | .flushBroadcast =>
      some ({ s with mCvFull := [], thread := wakeAll s.mCvFull s.thread }.return th .flush)
  | .setEOS eos => some ({ s with mEOS := eos }.goto th .broadcastFull)
  | .broadcastFull =>
      some ({ s with mCvFull := [], thread := wakeAll s.mCvFull s.thread }.goto th .broadcastEmpty)
  | .broadcastEmpty =>
      some ({ s with mCvEmpty := [], thread := wakeAll s.mCvEmpty s.thread }.return th .setEOS)

def State.call (s : State T Th Capacity) (th : Th) (p : ThreadPoint T) :
    Option (State T Th Capacity) :=
  match s.thread th with
  | .idle => some (s.goto th p)
  | _ => none

def State.leaveWait (s : State T Th Capacity) (th : Th) (timedOut : Bool) :
    State T Th Capacity :=
  { s with
    mCvFull := s.mCvFull.erase th
    mCvEmpty := s.mCvEmpty.erase th
    thread := Function.update s.thread th ((s.thread th).wake timedOut) }

def step (s : State T Th Capacity) : Action T Th → Option (State T Th Capacity)
  | .tick d => some { s with now := s.now + d }
  | .put th t timeoutMs => s.call th (.put t timeoutMs .enter)
  | .get th t timeoutMs => s.call th (.get t timeoutMs .enter)
  | .putForce th t => s.call th (.putForce t)
  | .flush th => s.call th (.flush false)
  | .setEOS th eos => s.call th (.setEOS eos)
  | .resume th choice => threadStep moved s th choice
  | .spurious th =>
      match s.thread th with
      | .put _ _ (.blocked _) | .get _ _ (.blocked _) => some (s.leaveWait th false)
      | _ => none
  | .timeout th =>
      match s.thread th with
      | .put _ _ (.blocked (some expireTime)) | .get _ _ (.blocked (some expireTime)) =>
          if expireTime ≤ s.now then some (s.leaveWait th true) else none
      | _ => none

def State.start (now : ℕ) : State T Th Capacity :=
  ⟨now, .empty default, false, [], [], fun _ => .idle, [], [], [], []⟩

end Step

open Transition

/-- The queue and its threads; `moved` is what moving an element leaves behind. -/
def system (T Th : Type) [Inhabited T] [DecidableEq Th] (Capacity : ℕ+) (moved : T → T) :
    Machine (State T Th Capacity) (Action T Th) where
  initial s := ∃ now, s = State.start now
  step := step moved

def oneCell : ℕ+ := Nat.succPNat 0

theorem initial_start {T Th : Type} [Inhabited T] [DecidableEq Th] {Capacity : ℕ+}
    {moved : T → T} : (system T Th Capacity moved).initial (State.start 0) := ⟨0, rfl⟩

end CWrapper.SyncQueue
