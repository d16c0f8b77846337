import CWrapper.CircularQueue
import Mathlib.Algebra.Order.Group.Multiset

/-!
FixedFunction.h. A FixedFunction owns the callable that lives in mStorage, or nothing; its three
pointers are null or those made for the type of that callable. A move hands the callable over
and leaves the source without one.
-/
namespace CWrapper

/-- What a function captured: an object of its own, of a type of the program. -/
structure Callable (K : Type) where
  type : K
  id : ℕ
  deriving DecidableEq, Repr

structure FixedFunction (K : Type) where
  mStorage : Option (Callable K)
  mFnInvoker : Option K
  mFnDestructor : Option K
  mFnMover : Option K
  invoker_eq : mFnInvoker = mStorage.map Callable.type
  destructor_eq : mFnDestructor = mStorage.map Callable.type
  mover_eq : mFnMover = mStorage.map Callable.type

namespace FixedFunction

variable {K : Type}

def new : FixedFunction K := ⟨none, none, none, none, rfl, rfl, rfl⟩

def construct (func : Callable K) : FixedFunction K :=
  ⟨some func, some func.type, some func.type, some func.type, rfl, rfl, rfl⟩

def invoke (f : FixedFunction K) : List (Callable K) :=
  match f.mFnInvoker with
  | some _ => f.mStorage.toList
  | none => []

def toBool (f : FixedFunction K) : Bool := f.mFnInvoker.isSome

/-- The object afterwards, and the callable that was destroyed, if any. -/
def reset (f : FixedFunction K) : FixedFunction K × List (Callable K) :=
  match f.mFnDestructor with
  | some _ => (new, f.mStorage.toList)
  | none => (f, [])

/-- The target and the source afterwards. -/
def move_from (f other : FixedFunction K) : FixedFunction K × FixedFunction K :=
  match other.mFnMover with
  | some _ =>
      (⟨other.mStorage, other.mFnInvoker, other.mFnDestructor, other.mFnMover,
        other.invoker_eq, other.destructor_eq, other.mover_eq⟩, new)
  | none => (f, other)

def moveConstruct (other : FixedFunction K) : FixedFunction K × FixedFunction K :=
  move_from new other

/-- `*this = std::move(other)`, where the two are not the same object. -/
def moveAssign : MoveAssign (FixedFunction K) (Callable K) := fun f other =>
  let (f, destroyed) := f.reset
  let (f, other) := f.move_from other
  (f, other, destroyed)

variable {f other : FixedFunction K}

@[simp] theorem new_mStorage : (new : FixedFunction K).mStorage = none := rfl

@[simp] theorem construct_mStorage (func : Callable K) :
    (construct func).mStorage = some func := rfl

/-- An object is as one of its constructors leaves it. -/
theorem new_or_construct (f : FixedFunction K) : f = new ∨ ∃ func, f = construct func := by
  obtain ⟨mStorage, _, _, _, rfl, rfl, rfl⟩ := f
  cases mStorage with
  | none => exact Or.inl rfl
  | some func => exact Or.inr ⟨func, rfl⟩

theorem invoke_eq (f : FixedFunction K) : f.invoke = f.mStorage.toList := by
  obtain rfl | ⟨func, rfl⟩ := f.new_or_construct <;> rfl

theorem toBool_iff : f.toBool = true ↔ f.mStorage ≠ none := by
  obtain rfl | ⟨func, rfl⟩ := f.new_or_construct <;> simp [toBool, new, construct]

@[simp] theorem reset_mStorage (f : FixedFunction K) : f.reset.1.mStorage = none := by
  obtain rfl | ⟨func, rfl⟩ := f.new_or_construct <;> rfl

@[simp] theorem reset_destroyed (f : FixedFunction K) : f.reset.2 = f.mStorage.toList := by
  obtain rfl | ⟨func, rfl⟩ := f.new_or_construct <;> rfl

/-- A target without a callable gets the one of the source. -/
theorem move_from_target (hf : f.mStorage = none) :
    (f.move_from other).1.mStorage = other.mStorage := by
  obtain rfl | ⟨func, rfl⟩ := other.new_or_construct
  · exact hf
  · rfl

theorem move_from_source : (f.move_from other).2.mStorage = none := by
  obtain rfl | ⟨func, rfl⟩ := other.new_or_construct <;> rfl

@[simp] theorem moveAssign_target (f other : FixedFunction K) :
    (moveAssign f other).1.mStorage = other.mStorage :=
  move_from_target f.reset_mStorage

@[simp] theorem moveAssign_source (f other : FixedFunction K) :
    (moveAssign f other).2.1.mStorage = none :=
  move_from_source

@[simp] theorem moveAssign_destroyed (f other : FixedFunction K) :
    (moveAssign f other).2.2 = f.mStorage.toList :=
  reset_destroyed f

def held (f : FixedFunction K) : Multiset (Callable K) := f.mStorage.toList

theorem held_eq_zero (h : f.mStorage = none) : f.held = 0 := by
  rw [held, h]
  rfl

@[simp] theorem held_new : (new : FixedFunction K).held = 0 := rfl

end FixedFunction

end CWrapper
