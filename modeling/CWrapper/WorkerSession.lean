import CWrapper.WorkerThread

/-!
The order in which IWorker's callbacks may come, and the phases of a session. A log is read from its
start; the reading stops where an event is out of order. A session is over when onPrepare has
returned false, when pthread_attr_init has failed, or when onCleanup has returned, and the next one
begins after that. A phase says what mState, mWorker, mId, the flags, the worker thread and
the log are, and where the threads stand that it depends on: the one that starts or joins, and
the one that delivers onStopRequested. All other threads are at points that no phase depends on.
-/
namespace CWrapper.WorkerThread

open Transition

variable {W Th : Type}

namespace Protocol

inductive RunStage (Th : Type)
  | created (id : Th)
  | inside (id : Th)
  | returned
  deriving DecidableEq

inductive StopStage
  | running
  | stopping
  | inside
  | returned
  deriving DecidableEq

inductive Stage (W Th : Type)
  | closed
  | starting (worker : W)
  | preparing (worker : W)
  | prepared (worker : W)
  | failed (worker : W)
  | live (worker : W) (run : RunStage Th) (stop : StopStage)
  | cleaning (worker : W)
  deriving DecidableEq

variable [DecidableEq W] [DecidableEq Th]

def next : Stage W Th → Event W Th → Option (Stage W Th)
  | .closed, .starting w => some (.starting w)
  | .starting _, .attrInitFailed => some .closed
  | .starting w, .prepareBegin w' => if w = w' then some (.preparing w) else none
  | .preparing w, .prepareEnd w' ok =>
      if w = w' then some (if ok then .prepared w else .closed) else none
  | .prepared w, .createFailed => some (.failed w)
  | .prepared w, .created id => some (.live w (.created id) .running)
  | .live w (.created id) stop, .runBegin id' w' =>
      if id = id' ∧ w = w' then some (.live w (.inside id) stop) else none
  | .live w (.inside id) stop, .runEnd id' w' =>
      if id = id' ∧ w = w' then some (.live w .returned stop) else none
  | .live w run .running, .stopping => some (.live w run .stopping)
  | .live w run .stopping, .stopBegin w' =>
      if w = w' then some (.live w run .inside) else none
  | .live w run .inside, .stopEnd w' => if w = w' then some (.live w run .returned) else none
  | .live w .returned .running, .cleanupBegin w' | .live w .returned .returned, .cleanupBegin w'
  | .failed w, .cleanupBegin w' => if w = w' then some (.cleaning w) else none
  | .cleaning w, .cleanupEnd w' => if w = w' then some .closed else none
  | _, _ => none

/-- What stage a log leads to, if its events are in order. -/
def read (log : List (Event W Th)) : Option (Stage W Th) := log.foldlM next .closed

/-- A log is read from its beginning on, one event after the other. -/
theorem read_concat (log : List (Event W Th)) (e : Event W Th) :
    read (log ++ [e]) = (read log).bind fun stage => next stage e := by
  simp [read, List.foldlM_append]

/-- The log is in order and goes on with an event. -/
theorem read_emit {log : List (Event W Th)} {stage stage' : Stage W Th} {e : Event W Th}
    (h : read log = some stage) (hnext : next stage e = some stage') :
    read (log ++ [e]) = some stage' := by
  rw [read_concat, h]
  exact hnext

end Protocol

inductive Delivery (Th : Type)
  | none
  | under (th : Th) (k : Notifier) (pt : CallbackPoint)
  | done

inductive Phase (W Th : Type)
  | idle
  | preparing (w : W) (h : Th) (pt : Preparation)
  /-- The thread is created and start() waits until it is ready. -/
  | opening (w : W) (h t : Th) (stored : Bool) (r : Task W)
  /-- pthread_create has failed, and the state is Idle again. -/
  | failed (w : W) (h : Th) (inside : Bool)
  | live (w : W) (t : Th) (r : Task W) (stop : Delivery Th)
  | joined (w : W) (h : Th) (op : Operation W) (stop : Delivery Th)
  /-- mWorker is taken, and onCleanup has not begun. -/
  | cleaning (w : W) (h : Th) (op : Operation W) (stop : Protocol.StopStage)
  /-- Inside onCleanup, or after it and before the reset. -/
  | closing (w : W) (h : Th) (op : Operation W) (inside : Bool)

/-- Points that no phase depends on. -/
def Call.isFree : Call W Th → Bool
  | .start _ .claim => true
  | .start _ _ | .onStopRequested .. => false
  | .joinLocked _ .read | .joinLocked _ (.pthreadJoin _) => true
  | .joinLocked _ _ => false
  | _ => true

def Call.joins : Call W Th → Option (Option Th)
  | .joinLocked _ (.pthreadJoin id) => some id
  | _ => Option.none

def Call.holds : Call W Th → Bool
  | .load _ | .start _ _ | .joinLocked _ _ | .unlock => true
  | .requestStop .stop | .onStopRequested .start _ _ | .onStopRequested (.requestStop .stop) _ _ =>
      true
  | _ => false

theorem Operation.back_free (op : Operation W) : (op.back : Call W Th).isFree = true := by
  cases op <;> rfl

theorem Operation.back_joins (op : Operation W) : (op.back : Call W Th).joins = none := by
  cases op <;> rfl

theorem Operation.back_holds (op : Operation W) : (op.back : Call W Th).holds = true := by
  cases op <;> rfl

theorem Requester.back_free (k : Requester) : (k.back : Call W Th).isFree = true := by
  cases k <;> rfl

theorem Requester.back_joins (k : Requester) : (k.back : Call W Th).joins = none := by
  cases k <;> rfl

theorem Requester.back_holds (k : Requester) :
    (k.back : Call W Th).holds = (Call.requestStop k : Call W Th).holds := by
  cases k <;> rfl

theorem Notifier.back_free (k : Notifier) : (k.back : Call W Th).isFree = true := by
  rcases k with _ | _ | _ <;> rfl

theorem Notifier.back_joins (k : Notifier) : (k.back : Call W Th).joins = none := by
  rcases k with _ | _ | _ <;> rfl

theorem Notifier.back_holds (k : Notifier) (w : W) (pt : CallbackPoint) :
    (k.back : Call W Th).holds = (Call.onStopRequested k w pt : Call W Th).holds := by
  rcases k with _ | _ | _ <;> rfl

theorem joins_holds {c : Call W Th} {id : Option Th} (h : c.joins = some id) :
    c.holds = true := by
  unfold Call.joins at h
  split at h
  · rfl
  · cases h

namespace Delivery

def callbacks : Delivery Th → ℕ
  | .under _ _ _ => 1
  | _ => 0

def stage : Delivery Th → Protocol.StopStage
  | .none => .running
  | .under _ _ .enter => .stopping
  | .under _ _ .inside => .inside
  | .under _ _ .leave | .done => .returned

variable [DecidableEq Th]

def point (w : W) (th : Th) : Delivery Th → Option (Call W Th)
  | .under n k pt => if th = n then some (.onStopRequested k w pt) else Option.none
  | _ => Option.none

end Delivery

def Task.stage (t : Th) : Task W → Protocol.RunStage Th
  | .run _ => .inside t
  | .exit | .exited => .returned
  | _ => .created t

namespace Phase

def state : Phase W Th → ThreadState
  | .idle | .failed .. => .idle
  | .preparing .. | .opening .. => .starting
  | .live _ _ .exited _ | .joined .. | .cleaning .. | .closing .. => .exited
  | .live _ _ _ .none => .running
  | .live _ _ _ _ => .stopping

def worker : Phase W Th → Option W
  | .preparing w _ _ | .opening w _ _ _ _ | .live w _ _ _ | .joined w _ _ _ => some w
  | _ => none

def callbacks : Phase W Th → ℕ
  | .live _ _ _ stop | .joined _ _ _ stop => stop.callbacks
  | _ => 0

/-- The argument of a pthread_join: the thread that start() has released and nobody has
joined. -/
def joinable : Phase W Th → Option (Option Th)
  | .live _ t _ _ => some (some t)
  | _ => none

/-- The identity is stored, and the flags are set as the thread goes on; the thread that joins
is not the one that delivers onStopRequested. -/
def Handshake (mStartReleased mThreadReady : Bool) (mId : Option Th) : Phase W Th → Prop
  | .preparing .. => mStartReleased = false ∧ mThreadReady = false
  | .opening _ _ t stored r =>
      mStartReleased = false ∧ (stored = true → mId = some t) ∧
        (r = .entry ∧ mThreadReady = false ∨ r = .await ∧ mThreadReady = true)
  | .live w t r _ =>
      mStartReleased = true ∧ mId = some t ∧
        (r = .await ∨ r = .released (some w) ∨ r = .run w ∨ r = .exit ∨ r = .exited)
  | .joined _ h _ stop => ∀ k pt, stop ≠ .under h k pt
  | .cleaning _ _ _ stop => stop = .running ∨ stop = .returned
  | _ => True

def stage : Phase W Th → Protocol.Stage W Th
  | .idle | .preparing _ _ (.reset false) | .closing _ _ _ false => .closed
  | .preparing w _ .attrInit | .preparing w _ .onPrepare => .starting w
  | .preparing w _ .inPrepare => .preparing w
  | .preparing w _ .create => .prepared w
  | .preparing w _ (.reset true) | .failed w _ false => .failed w
  | .failed w _ true | .closing w _ _ true => .cleaning w
  | .opening w _ t _ _ => .live w (.created t) .running
  | .live w t r stop => .live w (r.stage t) stop.stage
  | .joined w _ _ stop => .live w .returned stop.stage
  | .cleaning w _ _ stop => .live w .returned stop

/-- While the thread has not ended, the state does not depend on it. -/
theorem live_state {w : W} {th : Th} {t r : Task W} {stop : Delivery Th} (ht : t ≠ .exited)
    (hr : r ≠ .exited) :
    (Phase.live w th t stop : Phase W Th).state = (Phase.live w th r stop : Phase W Th).state := by
  cases t <;> cases r <;> cases stop <;> first | rfl | exact absurd rfl ht | exact absurd rfl hr

/-- A phase with a running session has its thread in taskEntry. -/
theorem live_of_running {p : Phase W Th} (h : p.state = .running) :
    ∃ w t r, p = .live w t r .none ∧ r ≠ .exited := by
  cases p with
  | live w t r stop =>
    have hr : r ≠ .exited := by
      rintro rfl
      cases h
    cases stop with
    | none => exact ⟨w, t, r, rfl, hr⟩
    | under n k pt | done => cases r <;> cases h
  | idle | preparing | opening | failed | joined | cleaning | closing => cases h

variable [DecidableEq Th]

def task (p : Phase W Th) : Th → Task W :=
  match p with
  | .opening _ _ t _ r | .live _ t r _ => Function.update (fun _ => .none) t r
  | _ => fun _ => .none

/-- Where a thread stands that the phase depends on. -/
def point (p : Phase W Th) (th : Th) : Option (Call W Th) :=
  match p with
  | .idle => none
  | .preparing w h pt => if th = h then some (.start w (.prepare pt)) else none
  | .opening w h t stored _ =>
      if th = h then some (.start w (.handshake (if stored then none else some t))) else none
  | .failed w h inside => if th = h then some (.start w (.cleanup inside)) else none
  | .live w _ _ stop => stop.point w th
  | .joined w h op stop =>
      if th = h then some (.joinLocked op .await) else stop.point w th
  | .cleaning w h op _ => if th = h then some (.joinLocked op (.cleanup w false)) else none
  | .closing w h op inside =>
      if th = h then some (.joinLocked op (if inside then .cleanup w true else .reset)) else none

def Allows (p : Phase W Th) (th : Th) (c : Call W Th) : Prop :=
  match p.point th with
  | some c' => c = c'
  | none => c.isFree = true

end Phase

end CWrapper.WorkerThread
