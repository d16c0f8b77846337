import CWrapper.FixedFunction
import CWrapper.Lifetimes

/-!
FixedFunction.h as it is written: three pointers and a storage that only the code keeps in step. A
target is an object of its own, and a move makes another one. A function made for the type of one
target has no result on storage that holds no object of this type, nor on storage that is not free.
-/
namespace CWrapper

open Lifetimes

structure Target (K : Type) where
  callable : Callable K
  object : ℕ
  deriving DecidableEq, Repr

structure RawFunction (K : Type) where
  mStorage : Option (Target K)
  mFnInvoker : Option K
  mFnDestructor : Option K
  mFnMover : Option K

namespace RawFunction

/-- The objects are numbered as they are constructed. -/
structure Heap where
  next : ℕ
  trace : List (Event ℕ)

variable {K : Type}

/-- `::new (storage) F(func)` -/
def Heap.construct (heap : Heap) (func : Callable K) : Target K × Heap :=
  (⟨func, heap.next⟩, ⟨heap.next + 1, heap.trace ++ [.construct heap.next]⟩)

/-- `storage->~F()` -/
def Heap.destruct (heap : Heap) (target : Target K) : Heap :=
  { heap with trace := heap.trace ++ [.destruct target.object] }

section Code

variable [DecidableEq K]

def invoker (F : K) (storage : Option (Target K)) : Option (Target K) :=
  storage.filter fun target => target.callable.type = F

def destructor (F : K) (storage : Option (Target K)) (heap : Heap) :
    Option (Option (Target K) × Heap) :=
  (storage.filter fun target => target.callable.type = F).map fun target =>
    (none, heap.destruct target)

def mover (F : K) (dst src : Option (Target K)) (heap : Heap) :
    Option (Option (Target K) × Option (Target K) × Heap) :=
  match dst with
  | some _ => none
  | none =>
    (src.filter fun target => target.callable.type = F).map fun target =>
      let (moved, heap) := heap.construct target.callable
      (some moved, none, heap.destruct target)

def new : RawFunction K := ⟨none, none, none, none⟩

def construct (func : Callable K) (heap : Heap) : RawFunction K × Heap :=
  let (target, heap) := heap.construct func
  (⟨some target, some func.type, some func.type, some func.type⟩, heap)

def invoke (f : RawFunction K) : Option (List (Target K)) :=
  match f.mFnInvoker with
  | some F => (invoker F f.mStorage).map fun target => [target]
  | none => some []

def toBool (f : RawFunction K) : Bool := f.mFnInvoker.isSome

def reset (f : RawFunction K) (heap : Heap) : Option (RawFunction K × Heap) :=
  match f.mFnDestructor with
  | some F => (destructor F f.mStorage heap).map fun (mStorage, heap) =>
      (⟨mStorage, none, none, none⟩, heap)
  | none => some (f, heap)

def move_from (f other : RawFunction K) (heap : Heap) :
    Option (RawFunction K × RawFunction K × Heap) :=
  match other.mFnMover with
  | some F =>
      let f := { f with
        mFnInvoker := other.mFnInvoker
        mFnDestructor := other.mFnDestructor
        mFnMover := other.mFnMover }
      (mover F f.mStorage other.mStorage heap).map fun (dst, src, heap) =>
        ({ f with mStorage := dst }, ⟨src, none, none, none⟩, heap)
  | none => some (f, other, heap)

def moveConstruct (other : RawFunction K) (heap : Heap) :
    Option (RawFunction K × RawFunction K × Heap) :=
  new.move_from other heap

/-- `*this = std::move(other)`, where the two are not the same object. -/
def moveAssign (f other : RawFunction K) (heap : Heap) :
    Option (RawFunction K × RawFunction K × Heap) := do
  let (f, heap) ← f.reset heap
  f.move_from other heap

end Code

section Targets

/-- An object with a target, or without one, as the constructors leave it. -/
def holding (target : Option (Target K)) : RawFunction K where
  mStorage := target
  mFnInvoker := target.map fun t => t.callable.type
  mFnDestructor := target.map fun t => t.callable.type
  mFnMover := target.map fun t => t.callable.type

def Heap.drop (heap : Heap) : Option (Target K) → Heap
  | none => heap
  | some target => heap.destruct target

def Heap.move (heap : Heap) : Option (Target K) → Option (Target K) × Heap
  | none => (none, heap)
  | some target =>
    let (moved, heap) := heap.construct target.callable
    (some moved, heap.destruct target)

/-- The object that carries its invariant, which knows no numbers. -/
def fixed (target : Option (Target K)) : FixedFunction K where
  mStorage := target.map Target.callable
  mFnInvoker := (holding target).mFnInvoker
  mFnDestructor := (holding target).mFnDestructor
  mFnMover := (holding target).mFnMover
  invoker_eq := by cases target <;> rfl
  destructor_eq := by cases target <;> rfl
  mover_eq := by cases target <;> rfl

variable (target other : Option (Target K)) (heap : Heap)

theorem new_eq : (new : RawFunction K) = holding none := rfl

theorem construct_eq (func : Callable K) :
    construct func heap = (holding (some (heap.construct func).1), (heap.construct func).2) := rfl

theorem toBool_holding : (holding target).toBool = target.isSome := by
  cases target <;> rfl

/-- Without the numbers of its objects a move gives the same object. -/
theorem fixed_move : fixed (heap.move target).1 = fixed target := by
  cases target <;> rfl

/-- Without the numbers of its objects a reset is the one of the object with its invariant. -/
theorem reset_fixed : (fixed target).reset =
    (fixed none, (target.map Target.callable).toList) := by
  cases target <;> rfl

/-- Without the numbers of its objects a move assignment is the one of the object with its
invariant. -/
theorem moveAssign_fixed : FixedFunction.moveAssign (fixed target) (fixed other) =
    (fixed ((heap.drop target).move other).1, fixed none,
      (target.map Target.callable).toList) := by
  rw [fixed_move]
  cases target <;> cases other <;> rfl

variable [DecidableEq K]

theorem invoke_holding : (holding target).invoke = some target.toList := by
  cases target with
  | none => rfl
  | some t => simp [invoke, invoker, holding]

theorem reset_holding : (holding target).reset heap = some (holding none, heap.drop target) := by
  cases target with
  | none => rfl
  | some t => simp [reset, destructor, holding, Heap.drop]

theorem move_from_holding : (holding none).move_from (holding target) heap =
    some (holding (heap.move target).1, holding none, (heap.move target).2) := by
  cases target with
  | none => rfl
  | some t => simp [move_from, mover, holding, Heap.move, Heap.construct]

theorem moveAssign_holding : (holding target).moveAssign (holding other) heap =
    some (holding ((heap.drop target).move other).1, holding none,
      ((heap.drop target).move other).2) := by
  rw [moveAssign, reset_holding]
  exact move_from_holding other (heap.drop target)

end Targets

end RawFunction

end CWrapper
