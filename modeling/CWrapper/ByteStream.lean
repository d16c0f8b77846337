import CWrapper.ByteQueue
import CWrapper.Transition

/-!
Numbers sent through a ByteRingBuffer. A writer submits their bytes in chunks and submits again
what was not accepted; a reader asks for the numbers with their types and byte orders. What has
been read, the bytes in the buffer and the bytes not yet accepted always make up what was sent.
-/
namespace CWrapper.ByteRingBuffer

open Simulation Transition

variable {Capacity : ℕ+}

/-- A number and the byte order it is sent in. -/
structure Value where
  type : UIntType
  val : BitVec type.bits
  bigEndian : Bool
  deriving DecidableEq

def Value.encode (x : Value) : List UInt8 :=
  ByteOrder.encode x.bigEndian x.type.sizeof x.val.toNat

def readCall (T : UIntType) (val : Option (BitVec T.bits)) (bigEndian : Bool) : Operation :=
  match T, val with
  | .uint8, val => .read8 val
  | .uint16, val => .read16 val bigEndian
  | .uint32, val => .read32 val bigEndian

def peekCall (T : UIntType) (offset : ℕ) (val : Option (BitVec T.bits)) (bigEndian : Bool) :
    Operation :=
  match T, val with
  | .uint8, val => .peek8 offset val
  | .uint16, val => .peek16 offset val bigEndian
  | .uint32, val => .peek32 offset val bigEndian

section Decoding

theorem Value.length_encode (x : Value) : x.encode.length = x.type.sizeof :=
  ByteOrder.length_encode ..

theorem Value.decode_encode (x : Value) : x.type.decode x.bigEndian x.encode = x.val := by
  have hlt : x.val.toNat < 256 ^ x.type.sizeof := by
    rw [pow_bits]
    exact x.val.isLt
  rw [UIntType.decode, Value.encode, ByteOrder.decode_encode _ hlt, BitVec.ofNat_toNat,
    BitVec.setWidth_eq]

/-- One byte has no order. -/
theorem decode_uint8 (bigEndian : Bool) {bytes : List UInt8} (h : bytes.length ≤ 1) :
    UIntType.decode .uint8 false bytes = UIntType.decode .uint8 bigEndian bytes := by
  have hrev : bytes.reverse = bytes := by
    match bytes, h with
    | [], _ => rfl
    | [_], _ => rfl
  cases bigEndian
  · rfl
  · rw [UIntType.decode, UIntType.decode, ByteOrder.decode, ByteOrder.decode, if_pos rfl, hrev]
    rfl

theorem numberAt_uint8 (q : List UInt8) (offset : ℕ)
    (val : Option (BitVec (UIntType.bits .uint8))) (bigEndian : Bool) :
    numberAt .uint8 q offset val false = numberAt .uint8 q offset val bigEndian := by
  rcases val with _ | old
  · rfl
  · have hlen : ((q.drop offset).take (UIntType.sizeof .uint8)).length ≤ 1 :=
      List.length_take_le ..
    rw [numberAt, numberAt, decode_uint8 bigEndian hlen]

theorem specification_readCall (T : UIntType) (q : List UInt8) (val : Option (BitVec T.bits))
    (bigEndian : Bool) :
    (specification Capacity).apply q (readCall T val bigEndian) =
      takeNumber T q val bigEndian := by
  cases T with
  | uint8 =>
    show takeNumber .uint8 q val false = _
    rw [takeNumber, takeNumber, numberAt_uint8 q 0 val bigEndian]
  | uint16 => rfl
  | uint32 => rfl

theorem specification_peekCall (T : UIntType) (q : List UInt8) (offset : ℕ)
    (val : Option (BitVec T.bits)) (bigEndian : Bool) :
    (specification Capacity).apply q (peekCall T offset val bigEndian) =
      (typedResult (numberAt T q offset val bigEndian), q) := by
  cases T with
  | uint8 =>
    show (typedResult (numberAt .uint8 q offset val false), q) = _
    rw [numberAt_uint8 q offset val bigEndian]
  | uint16 => rfl
  | uint32 => rfl

theorem observes_peekCall (T : UIntType) (offset : ℕ) (val : Option (BitVec T.bits))
    (bigEndian : Bool) : (peekCall T offset val bigEndian).observes = true := by
  cases T <;> rfl

/-- Some bytes of a stream whose next number is `x`. -/
theorem encode_prefix_iff {q rest tail : List UInt8} {x : Value}
    (h : q ++ rest = x.encode ++ tail) : x.encode <+: q ↔ x.type.sizeof ≤ q.length := by
  rw [← x.length_encode]
  constructor
  · exact List.IsPrefix.length_le
  · exact List.prefix_of_prefix_length_le ⟨tail, h.symm⟩ ⟨rest, rfl⟩

/-- A number at the front of the bytes is read back. -/
theorem numberAt_next {q : List UInt8} {x : Value} (h : x.encode <+: q)
    (old : BitVec x.type.bits) :
    numberAt x.type q 0 (some old) x.bigEndian = (true, some x.val) := by
  obtain ⟨rest, rfl⟩ := h
  have hlen : 0 + x.type.sizeof ≤ (x.encode ++ rest).length := by
    rw [List.length_append, x.length_encode]
    omega
  rw [numberAt, if_pos hlen, List.drop_zero, List.take_left' x.length_encode, x.decode_encode]

/-- With too few bytes there is no number, and what the caller had is left. -/
theorem numberAt_short {T : UIntType} {q : List UInt8} {offset : ℕ}
    (h : ¬ offset + T.sizeof ≤ q.length) (old : BitVec T.bits) (bigEndian : Bool) :
    numberAt T q offset (some old) bigEndian = (false, some old) := by
  rw [numberAt, if_neg h]

end Decoding

/-- The buffer, the bytes that write has not accepted yet, and the numbers read so far. -/
structure Stream (Capacity : ℕ+) where
  buffer : ByteRingBuffer Capacity
  pending : List UInt8
  received : List Value

namespace Stream

inductive Action
  /-- Submit the first `n` bytes that are not accepted yet. -/
  | write (n : ℕ)
  /-- Read the next number into a variable that holds `old`. -/
  | read (old : ℕ)
  | peek (a : Operation)

def accepted : Result → ℕ
  | .count n _ => n
  | _ => 0

def returned (bigEndian : Bool) : Result → List Value
  | .typed T true (some val) => [⟨T, val, bigEndian⟩]
  | _ => []

def step (sent : List Value) (s : Stream Capacity) : Action → Option (Stream Capacity)
  | .write n => do
      let (result, buffer) ← s.buffer.apply (.write (some (s.pending.take n)))
      return { s with buffer := buffer, pending := s.pending.drop (accepted result) }
  | .read old => do
      let x ← sent[s.received.length]?
      let (result, buffer) ←
        s.buffer.apply (readCall x.type (some (BitVec.ofNat _ old)) x.bigEndian)
      return { s with buffer := buffer, received := s.received ++ returned x.bigEndian result }
  | .peek a =>
      if a.observes then do
        let (_, buffer) ← s.buffer.apply a
        return { s with buffer := buffer }
      else none

def start (sent : List Value) : Stream Capacity := ⟨new, sent.flatMap Value.encode, []⟩

def machine (Capacity : ℕ+) (sent : List Value) : Machine (Stream Capacity) Action where
  initial s := s = start sent
  step := step sent

/-- The numbers read, the bytes in the buffer and the bytes to come are what was sent. -/
structure Intact (sent : List Value) (s : Stream Capacity) : Prop where
  wellFormed : s.buffer.WellFormed
  received : s.received <+: sent
  bytes : s.buffer.contents ++ s.pending =
    (sent.drop s.received.length).flatMap Value.encode

section Runs

variable {sent : List Value} {s s' : Stream Capacity}

theorem intact_start : Intact sent (start sent : Stream Capacity) where
  wellFormed := new_wellFormed
  received := List.nil_prefix
  bytes := rfl

/-- The bytes from the next number on. -/
theorem Intact.next (h : Intact sent s) {x : Value} (hx : sent[s.received.length]? = some x) :
    s.buffer.contents ++ s.pending =
      x.encode ++ (sent.drop (s.received.length + 1)).flatMap Value.encode := by
  obtain ⟨hlt, hget⟩ := List.getElem?_eq_some_iff.mp hx
  rw [h.bytes, List.drop_eq_getElem_cons hlt, hget, List.flatMap_cons]

/-- write() moves the bytes it accepts from those to come into the buffer. -/
theorem Intact.write (h : Intact sent s) (n : ℕ) (hstep : step sent s (.write n) = some s') :
    Intact sent s' := by
  obtain ⟨buffer, hwrite, hbuffer, hcontents⟩ :=
    apply_represents s.buffer _ (.write (some (s.pending.take n))) ⟨h.wellFormed, rfl⟩
  simp only [step, hwrite, Option.bind_eq_bind, Option.bind_some] at hstep
  obtain rfl := Option.some.inj hstep
  refine ⟨hbuffer, h.received, ?_⟩
  simp only [hcontents, specification, accepted]
  rw [List.take_take, List.append_assoc]
  have hle : min (s.pending.take n).length (Capacity - s.buffer.contents.length) ≤ n :=
    (Nat.min_le_left ..).trans (List.length_take_le ..)
  rw [Nat.min_eq_left hle, List.take_append_drop]
  exact h.bytes

/-- What reading the next number does. -/
theorem Intact.readCall (h : Intact sent s) {x : Value}
    (hx : sent[s.received.length]? = some x) (old : BitVec x.type.bits) :
    (x.encode <+: s.buffer.contents ∧
      ∃ r, s.buffer.apply (readCall x.type (some old) x.bigEndian) =
          some (.typed x.type true (some x.val), r) ∧
        r.WellFormed ∧ s.buffer.contents = x.encode ++ r.contents) ∨
    (¬ x.encode <+: s.buffer.contents ∧
      s.buffer.apply (ByteRingBuffer.readCall x.type (some old) x.bigEndian) =
        some (.typed x.type false (some old), s.buffer)) := by
  obtain ⟨r, hread, hr, hcontents⟩ := apply_represents s.buffer _
    (ByteRingBuffer.readCall x.type (some old) x.bigEndian) ⟨h.wellFormed, rfl⟩
  rw [specification_readCall] at hread hcontents
  have hiff := encode_prefix_iff (h.next hx)
  by_cases hpre : x.encode <+: s.buffer.contents
  · left
    rw [takeNumber, numberAt_next hpre] at hread hcontents
    refine ⟨hpre, r, hread, hr, ?_⟩
    obtain ⟨rest, hrest⟩ := hpre
    rw [hcontents, if_pos rfl, ← hrest, List.drop_left' x.length_encode]
  · right
    have hshort : ¬ 0 + x.type.sizeof ≤ s.buffer.contents.length := by
      rwa [Nat.zero_add, ← hiff]
    rw [takeNumber, numberAt_short hshort] at hread
    obtain rfl := apply_unchanged hread (Or.inr rfl)
    exact ⟨hpre, hread⟩

/-- A typed read takes one number off the front of what was sent, or fails and takes nothing. -/
theorem Intact.read (h : Intact sent s) (old : ℕ) (hstep : step sent s (.read old) = some s') :
    Intact sent s' := by
  simp only [step, Option.bind_eq_bind] at hstep
  obtain ⟨x, hx, hrest⟩ := Option.bind_eq_some_iff.mp hstep
  obtain ⟨-, r, hread, hr, hcontents⟩ | ⟨-, hread⟩ := h.readCall hx (BitVec.ofNat _ old)
  · simp only [hread, Option.bind_some] at hrest
    obtain rfl := Option.some.inj hrest
    refine ⟨hr, ?_, ?_⟩
    · obtain ⟨rest, hsent⟩ := h.received
      rw [← hsent, List.getElem?_append_right le_rfl, Nat.sub_self] at hx
      rcases rest with _ | ⟨y, rest⟩
      · simp at hx
      · obtain rfl : y = x := by simpa using hx
        exact ⟨rest, by simp [returned, ← hsent]⟩
    · have hnext := h.next hx
      rw [hcontents, List.append_assoc] at hnext
      simpa [returned] using List.append_cancel_left hnext
  · simp only [hread, Option.bind_some] at hrest
    obtain rfl := Option.some.inj hrest
    simpa [returned] using h

theorem Intact.peek (h : Intact sent s) (a : Operation)
    (hstep : step sent s (.peek a) = some s') : Intact sent s' := by
  simp only [step, Option.bind_eq_bind] at hstep
  split at hstep
  · rename_i ha
    obtain ⟨⟨result, buffer⟩, happly, hrest⟩ := Option.bind_eq_some_iff.mp hstep
    obtain rfl := apply_unchanged happly (Or.inl ha)
    obtain rfl := Option.some.inj hrest
    exact h
  · cases hstep

/-- Nothing of what was sent is lost, doubled or reordered, however reads and writes alternate. -/
theorem Intact.reachable (hs : (machine Capacity sent).Reachable Machine.anyStep s) :
    Intact sent s := by
  refine Machine.Invariant.always ⟨?_, ?_⟩ hs
  · rintro _ rfl
    exact intact_start
  · intro s a s' _ _ hstep h
    cases a with
    | write n => exact h.write n hstep
    | read old => exact h.read old hstep
    | peek a => exact h.peek a hstep

/-- At every moment the numbers read are the first ones sent, the next one can be read if and
only if its bytes are in the buffer, and a read or peek that fails changes nothing. -/
theorem values_survive (hs : (machine Capacity sent).Reachable Machine.anyStep s) :
    s.received <+: sent ∧
    s.buffer.contents ++ s.pending = (sent.drop s.received.length).flatMap Value.encode ∧
    (∀ x, sent[s.received.length]? = some x → ∀ old : BitVec x.type.bits, ∃ ok val r,
      s.buffer.apply (readCall x.type (some old) x.bigEndian) =
        some (.typed x.type ok val, r) ∧
      (ok = true ↔ x.encode <+: s.buffer.contents) ∧
      (ok = true → val = some x.val ∧ s.buffer.contents = x.encode ++ r.contents) ∧
      (ok = false → val = some old ∧ r = s.buffer)) ∧
    (∀ T offset (old : BitVec T.bits) bigEndian, ∃ ok val,
      s.buffer.apply (peekCall T offset (some old) bigEndian) =
        some (.typed T ok val, s.buffer) ∧
      (ok = false → val = some old)) ∧
    ∀ a, ∃ result r, s.buffer.apply a = some (result, r) ∧
      (a.observes = true → r = s.buffer) := by
  have h := Intact.reachable hs
  have happly (a : Operation) : ∃ r, s.buffer.apply a =
      some (((specification Capacity).apply s.buffer.contents a).1, r) ∧
        (a.observes = true → r = s.buffer) := by
    obtain ⟨r, hr, -⟩ := apply_represents s.buffer _ a ⟨h.wellFormed, rfl⟩
    exact ⟨r, hr, fun ha => apply_unchanged hr (Or.inl ha)⟩
  refine ⟨h.received, h.bytes, fun x hx old => ?_, fun T offset old bigEndian => ?_,
    fun a => ⟨_, happly a⟩⟩
  · obtain ⟨hpre, r, hread, -, hcontents⟩ | ⟨hpre, hread⟩ := h.readCall hx old
    · exact ⟨true, _, r, hread, by simp [hpre], fun _ => ⟨rfl, hcontents⟩, by simp⟩
    · exact ⟨false, _, s.buffer, hread, by simp [hpre], by simp, fun _ => ⟨rfl, rfl⟩⟩
  · refine ⟨(numberAt T s.buffer.contents offset (some old) bigEndian).1,
      (numberAt T s.buffer.contents offset (some old) bigEndian).2, ?_, ?_⟩
    · obtain ⟨r, hpeek, hr⟩ := happly (peekCall T offset (some old) bigEndian)
      obtain rfl := hr (observes_peekCall ..)
      rw [hpeek, specification_peekCall, typedResult]
    · intro hfalse
      rw [numberAt] at hfalse ⊢
      split at hfalse
      · cases hfalse
      · rename_i hshort
        rw [if_neg hshort]

/-- Three numbers through five bytes: the second is split over two writes and goes round the
end of the array. -/
def threeValues : List Value :=
  [⟨.uint16, 0x0102#16, true⟩, ⟨.uint32, 0x03040506#32, false⟩, ⟨.uint8, 0x07#8, true⟩]

def afterSplit : Stream (Nat.succPNat 4) :=
  (machine (Nat.succPNat 4) threeValues).after Machine.anyStep (start threeValues)
    [.write 7, .peek (.peek32 1 (some 0) true), .read 9, .read 9, .write 2, .read 9, .read 9]

theorem values_survive_split :
    afterSplit.received = threeValues ∧ afterSplit.received <+: threeValues := by
  refine ⟨by decide +kernel, ?_⟩
  exact (values_survive (Machine.reachable_after (M := machine (Nat.succPNat 4) threeValues)
    (s := start threeValues) rfl (by decide +kernel))).1

end Runs

end Stream

end CWrapper.ByteRingBuffer
