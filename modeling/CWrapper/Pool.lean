import Mathlib.Data.Fintype.Card
import CWrapper.Words
import CWrapper.Transition

/-!
Pool.h: Pool with its free list and its bitmap. Addresses and their arithmetic are those of a
64-bit machine; an index is a number below Capacity or INVALID_INDEX, which is Capacity.
-/
namespace CWrapper

open Simulation

namespace Pool

/-- The arguments of the template and the address of mStorage, an object in memory. -/
structure Layout where
  Capacity : ℕ
  sizeofT : ℕ
  start : UInt64
  capacity_pos : 0 < Capacity
  sizeofT_pos : 0 < sizeofT
  fits : start.toNat + Capacity * sizeofT < UInt64.size

def BITS_PER_CHUNK : ℕ := 32

namespace Layout

variable (L : Layout)

def STORAGE_SIZE : UInt64 := UInt64.ofNat (L.Capacity * L.sizeofT)

def BITMAP_SIZE : ℕ := 1 + (L.Capacity - 1) / BITS_PER_CHUNK

abbrev Index := Fin (L.Capacity + 1)

def INVALID_INDEX : L.Index := Fin.last L.Capacity

/-- The address of mStorage[index * sizeof(T)]. -/
def block (index : Fin L.Capacity) : UInt64 := L.start + UInt64.ofNat (index * L.sizeofT)

/-- The index that a size_t other than INVALID_INDEX is. -/
def valid (index : L.Index) : Option (Fin L.Capacity) :=
  if h : index.val < L.Capacity then some ⟨index, h⟩ else none

theorem size_lt : L.Capacity * L.sizeofT < UInt64.size :=
  Nat.lt_of_le_of_lt (Nat.le_add_left ..) L.fits

theorem sizeofT_lt : L.sizeofT < UInt64.size :=
  Nat.lt_of_le_of_lt (Nat.le_mul_of_pos_left _ L.capacity_pos) L.size_lt

theorem toNat_storageSize : L.STORAGE_SIZE.toNat = L.Capacity * L.sizeofT :=
  UInt64.toNat_ofNat_of_lt L.size_lt

theorem toNat_sizeofT : (UInt64.ofNat L.sizeofT).toNat = L.sizeofT :=
  UInt64.toNat_ofNat_of_lt L.sizeofT_lt

theorem quotient_lt {offset : UInt64} (h : ¬ offset ≥ L.STORAGE_SIZE) :
    (offset / UInt64.ofNat L.sizeofT).toNat < L.Capacity := by
  rw [ge_iff_le, UInt64.not_le, UInt64.lt_iff_toNat_lt, toNat_storageSize] at h
  rw [UInt64.toNat_div, toNat_sizeofT]
  exact Nat.div_lt_of_lt_mul (Nat.mul_comm .. ▸ h)

theorem chunk_lt (index : Fin L.Capacity) : index / BITS_PER_CHUNK < L.BITMAP_SIZE := by
  have hle : index / BITS_PER_CHUNK ≤ (L.Capacity - 1) / BITS_PER_CHUNK :=
    Nat.div_le_div_right (by omega)
  unfold BITMAP_SIZE
  omega

def chunk (index : Fin L.Capacity) : Fin L.BITMAP_SIZE := ⟨index / BITS_PER_CHUNK, L.chunk_lt index⟩

def getIndex (ptr : UInt64) : L.Index :=
  if ptr = 0 then L.INVALID_INDEX
  else if ptr < L.start then L.INVALID_INDEX
  else
    let offset := ptr - L.start
    if h : offset ≥ L.STORAGE_SIZE then L.INVALID_INDEX
    else if offset % UInt64.ofNat L.sizeofT ≠ 0 then L.INVALID_INDEX
    else ⟨(offset / UInt64.ofNat L.sizeofT).toNat, Nat.lt_succ_of_lt (L.quotient_lt h)⟩

end Layout

end Pool

structure Pool (L : Pool.Layout) where
  mUsedMap : Fin L.BITMAP_SIZE → BitVec 32
  mNext : Fin L.Capacity → L.Index
  mFreeHead : L.Index

namespace Pool

variable {L : Layout}

def bitMask (index : ℕ) : BitVec 32 := 1#32 <<< (index % BITS_PER_CHUNK)

def sequential (L : Layout) (i : Fin L.Capacity) : L.Index :=
  if h : i + 1 < L.Capacity then ⟨i + 1, Nat.lt_succ_of_lt h⟩ else L.INVALID_INDEX

def new (L : Layout) : Pool L where
  mUsedMap := fun _ => 0#32
  mNext := sequential L
  mFreeHead := ⟨0, Nat.succ_pos _⟩

def setUsed (p : Pool L) (index : Fin L.Capacity) : Pool L where
  mUsedMap := Function.update p.mUsedMap (L.chunk index)
    (p.mUsedMap (L.chunk index) ||| bitMask index)
  mNext := p.mNext
  mFreeHead := p.mFreeHead

def setFree (p : Pool L) (index : Fin L.Capacity) : Pool L where
  mUsedMap := Function.update p.mUsedMap (L.chunk index)
    (p.mUsedMap (L.chunk index) &&& ~~~bitMask index)
  mNext := p.mNext
  mFreeHead := p.mFreeHead

def isUsed (p : Pool L) (index : Fin L.Capacity) : Bool :=
  p.mUsedMap (L.chunk index) &&& bitMask index != 0#32

/-- The pointer is none for nullptr. -/
def alloc (p : Pool L) : Option UInt64 × Pool L :=
  match L.valid p.mFreeHead with
  | none => (none, p)
  | some index => (some (L.block index), { p with mFreeHead := p.mNext index }.setUsed index)

def free (p : Pool L) (ptr : UInt64) : Bool × Pool L :=
  if ptr = 0 then (true, p)
  else match L.valid (L.getIndex ptr) with
    | none => (false, p)
    | some index =>
        if p.isUsed index = false then (false, p)
        else (true, { p.setFree index with
          mNext := Function.update p.mNext index p.mFreeHead
          mFreeHead := index.castSucc })

def reset (_ : Pool L) : Pool L := new L

/-- The addresses that cleanup is called on, in order, and the pool afterwards. -/
def clear (p : Pool L) : List UInt64 × Pool L :=
  (((List.finRange L.Capacity).filter p.isUsed).map L.block, p.reset)

def isAllocated (p : Pool L) (ptr : UInt64) : Bool :=
  match L.valid (L.getIndex ptr) with
  | none => false
  | some index => p.isUsed index

inductive Operation
  | alloc
  | free (ptr : UInt64)
  | clear
  | reset
  | isAllocated (ptr : UInt64)

inductive Result
  | pointer (ptr : Option UInt64)
  | answer (b : Bool)
  | cleaned (blocks : List UInt64)
  | done
  deriving DecidableEq

def apply (p : Pool L) : Operation → Result × Pool L
  | .alloc => (.pointer p.alloc.1, p.alloc.2)
  | .free ptr => (.answer (p.free ptr).1, (p.free ptr).2)
  | .clear => (.cleaned p.clear.1, p.clear.2)
  | .reset => (.done, p.reset)
  | .isAllocated ptr => (.answer (p.isAllocated ptr), p)

def object (L : Layout) : Object (Pool L) Operation Result where
  initial := .new L
  apply p a := some (p.apply a)

end Pool

end CWrapper
