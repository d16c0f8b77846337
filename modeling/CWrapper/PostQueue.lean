import CWrapper.FixedFunction
import CWrapper.MainLoop

/-!
MainLoop::post and MainLoop::runFunctions with the objects they move: the parameter of put, the
slots of the ring and the local of each iteration. Constructing, moving and destroying a callable
does not call post. What was posted, accepted, rejected, invoked and destroyed is recorded in
that order.
-/
namespace CWrapper.PostQueue

open Transition

def kSlots : ℕ+ := Nat.succPNat 127

theorem kSlots_eq : (kSlots : ℕ) = MainLoop.kMaxFunctionSize := rfl

/-- The argument of post: a callable, or a FixedFunction with one or with none. -/
inductive Callback (K : Type)
  | callable (type : K)
  | fixed (type : Option K)
  deriving DecidableEq

/-- Where a thread that holds mFunctionLock in post is: before put and after it. The caller's
own FixedFunction, if it passed one, lives until post returns. -/
inductive PostPoint (K : Type)
  | put (callback t : FixedFunction K)
  | leave (callback t : FixedFunction K)

inductive Iteration (K : Type)
  | get
  | test (func : FixedFunction K)
  | call (func : FixedFunction K)
  | leave (func : FixedFunction K)

inductive LoopPoint (K : Type)
  /-- Outside runFunctions, with the result of the last call. -/
  | outside (result : Bool)
  | inside (executedAny : Bool) (it : Iteration K)

structure State (K Th : Type) where
  mFunctions : CircularQueue (FixedFunction K) kSlots
  mFunctionLock : Option (Th × PostPoint K)
  loop : LoopPoint K
  alive : Bool
  posted : List (Callable K)
  accepted : List (Callable K)
  rejected : List (Callable K)
  invoked : List (Callable K)
  destroyed : List (Callable K)

inductive Action (K Th : Type)
  | post (th : Th) (callback : Callback K)
  /-- The next step of the thread in post. -/
  | resume
  | runFunctions
  /-- The next step of runFunctions. -/
  | loop
  | destruct

variable {K Th : Type}

/-- The callable that a call of post passes, numbered by the call. -/
def Callback.callables (id : ℕ) : Callback K → List (Callable K)
  | .callable type | .fixed (some type) => [⟨type, id⟩]
  | .fixed none => []

/-- The temporary that is put's parameter, and the caller's FixedFunction after that. -/
def Callback.construct (id : ℕ) : Callback K → FixedFunction K × FixedFunction K
  | .callable type => (.construct ⟨type, id⟩, .new)
  | .fixed (some type) => FixedFunction.moveConstruct (.construct ⟨type, id⟩)
  | .fixed none => FixedFunction.moveConstruct .new

def postStep (s : State K Th) (th : Th) : PostPoint K → State K Th
  | .put callback t =>
      let ((ok, t', destroyed), mFunctions) := s.mFunctions.put FixedFunction.moveAssign t
      { s with
        mFunctions := mFunctions
        mFunctionLock := some (th, .leave callback t')
        accepted := if ok then s.accepted ++ t.mStorage.toList else s.accepted
        rejected := if ok then s.rejected else s.rejected ++ t.mStorage.toList
        destroyed := s.destroyed ++ destroyed }
  | .leave callback t => { s with
      mFunctionLock := none
      destroyed := s.destroyed ++ t.reset.2 ++ callback.reset.2 }

def loopStep (s : State K Th) (executedAny : Bool) : Iteration K → Option (State K Th)
  | .get =>
      if s.mFunctionLock.isNone then
        match s.mFunctions.get FixedFunction.moveAssign (some .new) with
        | ((true, some func, destroyed), mFunctions) => some { s with
            mFunctions := mFunctions
            loop := .inside executedAny (.test func)
            destroyed := s.destroyed ++ destroyed }
        | _ => some { s with loop := .outside executedAny }
      else none
  | .test func =>
      if func.toBool then
        some { s with
          loop := .inside executedAny (.call func)
          invoked := s.invoked ++ func.invoke }
      else some { s with loop := .inside executedAny (.leave func) }
  | .call func => some { s with loop := .inside executedAny (.leave func) }
  | .leave func => some { s with
      loop := .inside true .get
      destroyed := s.destroyed ++ func.reset.2 }

/-- ~MainLoop destroys the slots, the last one first. -/
def destructStep (s : State K Th) : State K Th :=
  { s with
    mFunctions := { s.mFunctions with mBuffer := fun i => (s.mFunctions.mBuffer i).reset.1 }
    alive := false
    destroyed := s.destroyed ++
      (List.finRange kSlots).reverse.flatMap fun i => (s.mFunctions.mBuffer i).reset.2 }

/-- The MainLoop is destroyed when no thread is in one of its functions. -/
def step (s : State K Th) (a : Action K Th) : Option (State K Th) :=
  if s.alive then
    match a with
    | .post th callback =>
        if s.mFunctionLock.isNone then
          let (t, callback') := callback.construct s.posted.length
          some { s with
            mFunctionLock := some (th, .put callback' t)
            posted := s.posted ++ callback.callables s.posted.length }
        else none
    | .resume => s.mFunctionLock.map fun (th, p) => postStep s th p
    | .runFunctions =>
        match s.loop with
        | .outside _ => some { s with loop := .inside false .get }
        | .inside _ _ => none
    | .loop =>
        match s.loop with
        | .outside _ => none
        | .inside executedAny it => loopStep s executedAny it
    | .destruct =>
        match s.loop with
        | .outside _ => if s.mFunctionLock.isNone then some (destructStep s) else none
        | .inside _ _ => none
  else none

def start : State K Th := ⟨.empty .new, none, .outside false, true, [], [], [], [], []⟩

def machine (K Th : Type) : Machine (State K Th) (Action K Th) where
  initial s := s = start
  step := step

end CWrapper.PostQueue
