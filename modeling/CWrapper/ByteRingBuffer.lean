import CWrapper.Memory
import CWrapper.Transition

/-!
ByteRingBuffer.h. An operation has no result where a memcpy would leave a block or a size_t
difference would wrap. Each public function holds mLock from its first access to its last. A
pointer of the caller is none when it is null, and otherwise the block it points to; its
length is the argument `len`.
-/
namespace CWrapper

open Memory

namespace ByteRingBuffer

inductive UIntType
  | uint8
  | uint16
  | uint32
  deriving DecidableEq, Repr

def UIntType.sizeof : UIntType → ℕ
  | .uint8 => 1
  | .uint16 => 2
  | .uint32 => 4

def UIntType.bits (T : UIntType) : ℕ := 8 * T.sizeof

end ByteRingBuffer

structure ByteRingBuffer (Capacity : ℕ+) where
  mData : Fin Capacity → UInt8
  mSize : ℕ
  mFront : ℕ
  mRear : ℕ

namespace ByteRingBuffer

variable {Capacity : ℕ+}

def new : ByteRingBuffer Capacity := ⟨fun _ => 0, 0, 0, 0⟩

def write (r : ByteRingBuffer Capacity) :
    Option (List UInt8) → Option (ℕ × ByteRingBuffer Capacity)
  | none => some (0, r)
  | some buf => do
      let len := buf.length
      if len = 0 then return (0, r)
      let can_write := min len (← sub Capacity r.mSize)
      if can_write = 0 then return (0, r)
      let first_part := min can_write (← sub Capacity r.mRear)
      let mData ← store r.mData r.mRear (← slice buf 0 first_part)
      let mData ← if can_write > first_part then do
          store mData 0 (← slice buf first_part (← sub can_write first_part))
        else some mData
      return (can_write,
        { mData := mData
          mSize := r.mSize + can_write
          mFront := r.mFront
          mRear := (r.mRear + can_write) % Capacity })

/-- The number of bytes, and what they leave in the block `buf`. -/
def _peek (r : ByteRingBuffer Capacity) (offset : ℕ) (buf : Option (List UInt8)) (len : ℕ) :
    Option (ℕ × Option (List UInt8)) := do
  if offset ≥ r.mSize ∨ len = 0 then return (0, buf)
  let can_read := min len (← sub r.mSize offset)
  let start_idx := (r.mFront + offset) % Capacity
  let first_part := min can_read (← sub Capacity start_idx)
  match buf with
  | none => return (can_read, none)
  | some buf =>
      let buf ← overwrite buf 0 (← load r.mData start_idx first_part)
      let buf ← if can_read > first_part then do
          overwrite buf first_part (← load r.mData 0 (← sub can_read first_part))
        else some buf
      return (can_read, some buf)

def _drop (r : ByteRingBuffer Capacity) (size : ℕ) : Option (Bool × ByteRingBuffer Capacity) := do
  if r.mSize < size then return (false, r)
  let mSize ← sub r.mSize size
  return (true, { r with mFront := (r.mFront + size) % Capacity, mSize := mSize })

def read (r : ByteRingBuffer Capacity) :
    Option (List UInt8) → Option ((ℕ × Option (List UInt8)) × ByteRingBuffer Capacity)
  | none => some ((0, none), r)
  | some buf => do
      if buf.length = 0 then return ((0, some buf), r)
      let (bytesRead, buf) ← r._peek 0 (some buf) buf.length
      if bytesRead > 0 then
        let (_, r) ← r._drop bytesRead
        return ((bytesRead, buf), r)
      return ((bytesRead, buf), r)

def peek (r : ByteRingBuffer Capacity) : Option (List UInt8) → Option (ℕ × Option (List UInt8))
  | none => some (0, none)
  | some buf => if buf.length = 0 then some (0, some buf) else r._peek 0 (some buf) buf.length

def drop (r : ByteRingBuffer Capacity) (size : ℕ) : Option (Bool × ByteRingBuffer Capacity) :=
  r._drop size

/-- `*val |= static_cast<T>(byte) << shift`: both sides are promoted to 32 bits and the result
is converted back. -/
def orByte {bits : ℕ} (val : BitVec bits) (byte : UInt8) (shift : ℕ) : BitVec bits :=
  (val.setWidth 32 ||| byte.toBitVec.setWidth 32 <<< shift).setWidth bits

def combine (T : UIntType) (temp : List UInt8) (bigEndian : Bool) : Option (BitVec T.bits) :=
  (List.range T.sizeof).foldlM (fun val i => do
    let byte ← temp[i]?
    let shift ← if bigEndian then do sub (← sub T.sizeof 1) i else some i
    return orByte val byte (8 * shift)) 0

/-- The pointer `val` is none when it is null. The bytes of `temp` before they are read into
do not matter. -/
def _peekType (r : ByteRingBuffer Capacity) (T : UIntType) (offset : ℕ)
    (val : Option (BitVec T.bits)) (bigEndian : Bool) :
    Option (Bool × Option (BitVec T.bits)) := do
  let temp := List.replicate T.sizeof 0
  match val with
  | none => return (false, none)
  | some old =>
      let (n, temp) ← r._peek offset (some temp) T.sizeof
      if n ≠ T.sizeof then return (false, some old)
      let val ← combine T (temp.getD []) bigEndian
      return (true, some val)

def _readType (r : ByteRingBuffer Capacity) (T : UIntType) (val : Option (BitVec T.bits))
    (bigEndian : Bool) : Option ((Bool × Option (BitVec T.bits)) × ByteRingBuffer Capacity) := do
  let (ok, val) ← r._peekType T 0 val bigEndian
  if ok then
    let (_, r) ← r._drop T.sizeof
    return ((true, val), r)
  return ((false, val), r)

def capacity (_ : ByteRingBuffer Capacity) : ℕ := Capacity

def size (r : ByteRingBuffer Capacity) : ℕ := r.mSize

def available (r : ByteRingBuffer Capacity) : Option ℕ := sub Capacity r.mSize

def read8 (r : ByteRingBuffer Capacity) (val : Option (BitVec (UIntType.bits .uint8))) :=
  r._readType .uint8 val false

def read16 (r : ByteRingBuffer Capacity) (val : Option (BitVec (UIntType.bits .uint16)))
    (bigEndian : Bool) :=
  r._readType .uint16 val bigEndian

def read32 (r : ByteRingBuffer Capacity) (val : Option (BitVec (UIntType.bits .uint32)))
    (bigEndian : Bool) :=
  r._readType .uint32 val bigEndian

def peek8 (r : ByteRingBuffer Capacity) (offset : ℕ)
    (val : Option (BitVec (UIntType.bits .uint8))) :=
  r._peekType .uint8 offset val false

def peek16 (r : ByteRingBuffer Capacity) (offset : ℕ)
    (val : Option (BitVec (UIntType.bits .uint16))) (bigEndian : Bool) :=
  r._peekType .uint16 offset val bigEndian

def peek32 (r : ByteRingBuffer Capacity) (offset : ℕ)
    (val : Option (BitVec (UIntType.bits .uint32))) (bigEndian : Bool) :=
  r._peekType .uint32 offset val bigEndian

inductive Operation
  | write (buf : Option (List UInt8))
  | read (buf : Option (List UInt8))
  | peek (buf : Option (List UInt8))
  | drop (size : ℕ)
  | read8 (val : Option (BitVec (UIntType.bits .uint8)))
  | read16 (val : Option (BitVec (UIntType.bits .uint16))) (bigEndian : Bool)
  | read32 (val : Option (BitVec (UIntType.bits .uint32))) (bigEndian : Bool)
  | peek8 (offset : ℕ) (val : Option (BitVec (UIntType.bits .uint8)))
  | peek16 (offset : ℕ) (val : Option (BitVec (UIntType.bits .uint16))) (bigEndian : Bool)
  | peek32 (offset : ℕ) (val : Option (BitVec (UIntType.bits .uint32))) (bigEndian : Bool)
  | size
  | available

/-- What a call returns, with what its pointer points to afterwards. -/
inductive Result
  | count (n : ℕ) (buf : Option (List UInt8))
  | answer (b : Bool)
  | typed (T : UIntType) (b : Bool) (val : Option (BitVec T.bits))
  deriving DecidableEq

def typedResult {T : UIntType} (a : Bool × Option (BitVec T.bits)) : Result := .typed T a.1 a.2

def apply (r : ByteRingBuffer Capacity) :
    Operation → Option (Result × ByteRingBuffer Capacity)
  | .write buf => (r.write buf).map fun (n, r) => (.count n buf, r)
  | .read buf => (r.read buf).map fun ((n, buf), r) => (.count n buf, r)
  | .peek buf => (r.peek buf).map fun (n, buf) => (.count n buf, r)
  | .drop size => (r.drop size).map fun (b, r) => (.answer b, r)
  | .read8 val => (r.read8 val).map fun (a, r) => (typedResult a, r)
  | .read16 val bigEndian => (r.read16 val bigEndian).map fun (a, r) => (typedResult a, r)
  | .read32 val bigEndian => (r.read32 val bigEndian).map fun (a, r) => (typedResult a, r)
  | .peek8 offset val => (r.peek8 offset val).map fun a => (typedResult a, r)
  | .peek16 offset val bigEndian =>
      (r.peek16 offset val bigEndian).map fun a => (typedResult a, r)
  | .peek32 offset val bigEndian =>
      (r.peek32 offset val bigEndian).map fun a => (typedResult a, r)
  | .size => some (.count r.size none, r)
  | .available => r.available.map fun n => (.count n none, r)

open Simulation

def object (Capacity : ℕ+) : Object (ByteRingBuffer Capacity) Operation Result where
  initial := new
  apply := apply

end ByteRingBuffer

end CWrapper
