import CWrapper.Words
import CWrapper.ByteRingBuffer

/-!
What ByteRingBuffer is for: a bounded queue of bytes, from which numbers may be read in either
byte order. Every copy of the buffer stays inside its blocks, in one piece or in two, and the
buffer answers every sequence of calls as the queue does.
-/
namespace CWrapper.ByteRingBuffer

open Memory Simulation

variable {Capacity : ℕ+}

def UIntType.decode (T : UIntType) (bigEndian : Bool) (bytes : List UInt8) : BitVec T.bits :=
  BitVec.ofNat T.bits (ByteOrder.decode bigEndian bytes)

/-- What a block of the caller holds when bytes have been copied to its front. -/
def fill (buf bytes : List UInt8) : List UInt8 := bytes ++ buf.drop bytes.length

def numberAt (T : UIntType) (q : List UInt8) (offset : ℕ) (val : Option (BitVec T.bits))
    (bigEndian : Bool) : Bool × Option (BitVec T.bits) :=
  match val with
  | none => (false, none)
  | some old =>
      if offset + T.sizeof ≤ q.length then
        (true, some (T.decode bigEndian ((q.drop offset).take T.sizeof)))
      else (false, some old)

def takeNumber (T : UIntType) (q : List UInt8) (val : Option (BitVec T.bits))
    (bigEndian : Bool) : Result × List UInt8 :=
  let a := numberAt T q 0 val bigEndian
  (typedResult a, if a.1 then q.drop T.sizeof else q)

def specification (Capacity : ℕ+) : Specification (List UInt8) Operation Result where
  initial := []
  apply q
    | .write none => (.count 0 none, q)
    | .write (some buf) =>
        let n := min buf.length (Capacity - q.length)
        (.count n (some buf), q ++ buf.take n)
    | .read none => (.count 0 none, q)
    | .read (some buf) =>
        let n := min buf.length q.length
        (.count n (some (fill buf (q.take n))), q.drop n)
    | .peek none => (.count 0 none, q)
    | .peek (some buf) =>
        let n := min buf.length q.length
        (.count n (some (fill buf (q.take n))), q)
    | .drop size => if size ≤ q.length then (.answer true, q.drop size) else (.answer false, q)
    | .read8 val => takeNumber .uint8 q val false
    | .read16 val bigEndian => takeNumber .uint16 q val bigEndian
    | .read32 val bigEndian => takeNumber .uint32 q val bigEndian
    | .peek8 offset val => (typedResult (numberAt .uint8 q offset val false), q)
    | .peek16 offset val bigEndian => (typedResult (numberAt .uint16 q offset val bigEndian), q)
    | .peek32 offset val bigEndian => (typedResult (numberAt .uint32 q offset val bigEndian), q)
    | .size => (.count q.length none, q)
    | .available => (.count (Capacity - q.length) none, q)

structure WellFormed (r : ByteRingBuffer Capacity) : Prop where
  size_le : r.mSize ≤ Capacity
  front_lt : r.mFront < Capacity
  rear : r.mRear = (r.mFront + r.mSize) % Capacity

def contents (r : ByteRingBuffer Capacity) : List UInt8 :=
  Tape.contents r.mData r.mFront r.mSize

@[simp] theorem length_contents (r : ByteRingBuffer Capacity) : r.contents.length = r.mSize :=
  Tape.length_contents

section Copies

variable {r : ByteRingBuffer Capacity}

theorem write_some (h : r.WellFormed) (buf : List UInt8) :
    ∃ r', r.write (some buf) = some (min buf.length (Capacity - r.mSize), r') ∧ r'.WellFormed ∧
      r'.contents = r.contents ++ buf.take (min buf.length (Capacity - r.mSize)) := by
  have hsize := h.size_le
  have hrear : r.mRear < Capacity := by
    rw [h.rear]
    exact Nat.mod_lt _ Capacity.pos
  simp only [write, sub_eq hsize, sub_eq hrear.le, Option.bind_eq_bind, Option.bind_some]
  by_cases hlen : buf.length = 0
  · refine ⟨r, by simp [hlen], h, ?_⟩
    simp [List.length_eq_zero_iff.mp hlen]
  rw [if_neg hlen]
  generalize hn : min buf.length (Capacity - r.mSize) = n
  by_cases hzero : n = 0
  · refine ⟨r, by simp [hzero], h, by simp [hzero]⟩
  rw [if_neg hzero]
  generalize hfirst : min n (Capacity - r.mRear) = first
  have htake : (buf.take n).length = n := by
    rw [List.length_take]
    omega
  have hslice : slice buf 0 first = some (buf.take first) := by
    rw [slice_eq (by omega), List.drop_zero]
  have hstore : store r.mData r.mRear (buf.take first) =
      some (Tape.write r.mData r.mRear (buf.take first)) :=
    store_eq (by rw [List.length_take]; omega)
  have hdata : Tape.contents (Tape.write r.mData r.mRear (buf.take n)) r.mFront (r.mSize + n) =
      r.contents ++ buf.take n := by
    have hroom : r.mSize + (buf.take n).length ≤ Capacity := by
      rw [htake]
      omega
    have happend := Tape.contents_append r.mData r.mFront r.mSize hroom
    rw [htake, ← Tape.write_cell] at happend
    rw [h.rear]
    exact happend
  have hwf (data : Fin Capacity → UInt8) : WellFormed
      { mData := data, mSize := r.mSize + n, mFront := r.mFront
        mRear := (r.mRear + n) % Capacity : ByteRingBuffer Capacity } :=
    ⟨by simp only; omega, h.front_lt, by simp only [h.rear, Nat.mod_add_mod, Nat.add_assoc]⟩
  rw [hslice, Option.bind_some, hstore, Option.bind_some]
  by_cases hsplit : n > first
  · -- the copy goes round the end of the array
    have hend : r.mRear + first = Capacity := by omega
    have hwrap : Tape.write (Tape.write r.mData r.mRear (buf.take first)) 0
        ((buf.take n).drop first) = Tape.write r.mData r.mRear (buf.take n) := by
      have hparts := Tape.write_wrap r.mData (buf.take n) (by rw [htake]; omega) hend
      rwa [List.take_take, Nat.min_eq_left hsplit.le] at hparts
    have hrest : slice buf first (n - first) = some ((buf.take n).drop first) := by
      rw [slice_eq (by omega), List.drop_take]
    have hstore' : store (Tape.write r.mData r.mRear (buf.take first)) 0 ((buf.take n).drop first) =
        some (Tape.write (Tape.write r.mData r.mRear (buf.take first)) 0
          ((buf.take n).drop first)) :=
      store_eq (by rw [List.length_drop, htake]; omega)
    rw [if_pos hsplit, sub_eq hsplit.le, Option.bind_some, hrest, Option.bind_some, hstore',
      Option.bind_some, hwrap]
    exact ⟨_, rfl, hwf _, hdata⟩
  · have hall : first = n := by omega
    rw [if_neg hsplit, hall]
    exact ⟨_, rfl, hwf _, hdata⟩

theorem length_fill {buf bytes : List UInt8} (h : bytes.length ≤ buf.length) :
    (fill buf bytes).length = buf.length := by
  simp only [fill, List.length_append, List.length_drop]
  omega

/-- Bytes from an offset on, as many as there are. -/
theorem _peek_some (h : r.WellFormed) (offset : ℕ) (buf : List UInt8) :
    r._peek offset (some buf) buf.length =
      some (min buf.length (r.mSize - offset),
        some (fill buf ((r.contents.drop offset).take (min buf.length (r.mSize - offset))))) := by
  have hsize := h.size_le
  have hfront := h.front_lt
  unfold _peek
  by_cases hnone : offset ≥ r.mSize ∨ buf.length = 0
  · have hzero : min buf.length (r.mSize - offset) = 0 := by omega
    rw [if_pos hnone, hzero]
    rfl
  rw [if_neg hnone]
  have hstart : (r.mFront + offset) % Capacity < Capacity := Nat.mod_lt _ Capacity.pos
  simp only [sub_eq (show offset ≤ r.mSize by omega), sub_eq hstart.le, Option.bind_eq_bind,
    Option.bind_some]
  generalize hn : min buf.length (r.mSize - offset) = n
  generalize hs : (r.mFront + offset) % Capacity = start at hstart ⊢
  generalize hfirst : min n (Capacity - start) = first
  have hbytes : (r.contents.drop offset).take n = Tape.contents r.mData start n := by
    rw [contents, Tape.drop_contents (by omega), Tape.take_contents (by omega),
      ← Tape.contents_cell, ← hs]
    rfl
  have hload : load r.mData start first = some (Tape.contents r.mData start first) :=
    load_eq (by omega)
  have hover : overwrite buf 0 (Tape.contents r.mData start first) =
      some (fill buf (Tape.contents r.mData start first)) := by
    rw [overwrite_eq (by rw [Tape.length_contents]; omega)]
    simp [fill]
  rw [hbytes, hload, Option.bind_some, hover, Option.bind_some]
  by_cases hsplit : n > first
  · -- the copy goes round the end of the array
    have hend : start + first = Capacity := by omega
    have hload' : load r.mData 0 (n - first) = some (Tape.contents r.mData 0 (n - first)) :=
      load_eq (by omega)
    have hover' : overwrite (fill buf (Tape.contents r.mData start first)) first
        (Tape.contents r.mData 0 (n - first)) =
          some (fill buf (Tape.contents r.mData start n)) := by
      rw [overwrite_eq (by rw [length_fill] <;> simp only [Tape.length_contents] <;> omega),
        ← Tape.contents_wrap r.mData hsplit.le hend]
      simp only [fill, Tape.length_contents, List.length_append, Option.some.injEq]
      rw [List.take_left' Tape.length_contents, List.drop_append, List.drop_drop]
      simp only [Tape.length_contents, List.append_assoc]
      congr 2
      rw [List.drop_eq_nil_of_le (by simp), List.nil_append]
      congr 1
      omega
    rw [if_pos hsplit, sub_eq hsplit.le, Option.bind_some, hload', Option.bind_some, hover']
    rfl
  · have hall : first = n := by omega
    rw [if_neg hsplit, hall]
    rfl

theorem _drop_le (h : r.WellFormed) {size : ℕ} (hle : size ≤ r.mSize) :
    ∃ r', r._drop size = some (true, r') ∧ r'.WellFormed ∧ r'.contents = r.contents.drop size := by
  refine ⟨{ r with mFront := (r.mFront + size) % Capacity, mSize := r.mSize - size }, ?_, ?_, ?_⟩
  · simp [_drop, Nat.not_lt.mpr hle, sub_eq hle]
  · refine ⟨(Nat.sub_le ..).trans h.size_le, Nat.mod_lt _ Capacity.pos, ?_⟩
    have hsum : r.mFront + size + (r.mSize - size) = r.mFront + r.mSize := by omega
    simp only [h.rear, Nat.mod_add_mod, hsum]
  · rw [contents, contents, Tape.drop_contents hle]
    exact Tape.contents_cell ..

theorem _drop_gt {size : ℕ} (hgt : r.mSize < size) : r._drop size = some (false, r) := by
  simp [_drop, hgt]

end Copies

section Numbers

variable {T : UIntType} {temp : List UInt8}

theorem bits_le (T : UIntType) : T.bits ≤ 32 := by cases T <;> decide

theorem pow_bits (T : UIntType) : 256 ^ T.sizeof = 2 ^ T.bits := by
  rw [UIntType.bits, Nat.pow_mul]

/-- The promotion to 32 bits and the conversion back lose nothing. -/
theorem toNat_orByte {bits shift : ℕ} (hbits : bits ≤ 32) (hshift : shift + 8 ≤ bits)
    (val : BitVec bits) (byte : UInt8) :
    (orByte val byte shift).toNat = val.toNat ||| byte.toNat <<< shift := by
  have hval : val.toNat < 2 ^ 32 :=
    Nat.lt_of_lt_of_le val.isLt (Nat.pow_le_pow_right (by decide) hbits)
  have hbyte : byte.toNat <<< shift < 2 ^ bits := by
    rw [Nat.shiftLeft_eq]
    calc byte.toNat * 2 ^ shift < 2 ^ 8 * 2 ^ shift :=
          Nat.mul_lt_mul_of_pos_right byte.toNat_lt (by positivity)
      _ = 2 ^ (shift + 8) := by rw [← Nat.pow_add, Nat.add_comm]
      _ ≤ 2 ^ bits := Nat.pow_le_pow_right (by decide) hshift
  have hbyte' : byte.toNat <<< shift < 2 ^ 32 :=
    Nat.lt_of_lt_of_le hbyte (Nat.pow_le_pow_right (by decide) hbits)
  have hlt : byte.toNat < 2 ^ 32 := Nat.lt_of_lt_of_le byte.toNat_lt (by decide)
  simp only [orByte, BitVec.toNat_setWidth, BitVec.toNat_or, BitVec.toNat_shiftLeft,
    UInt8.toNat_toBitVec]
  rw [Nat.mod_eq_of_lt hval, Nat.mod_eq_of_lt hlt, Nat.mod_eq_of_lt hbyte',
    Nat.mod_eq_of_lt (Nat.or_lt_two_pow val.isLt hbyte)]

theorem pow_byte (n : ℕ) : (256 : ℕ) ^ n = 2 ^ (8 * n) := by
  rw [Nat.pow_mul]

/-- Least significant byte first: each byte goes above those before it. -/
theorem combine_little (htemp : temp.length = T.sizeof) {n : ℕ} (hn : n ≤ T.sizeof) :
    ∃ val : BitVec T.bits, (List.range n).foldlM (fun (val : BitVec T.bits) i => do
      let byte ← temp[i]?
      let shift ← if false then do sub (← sub T.sizeof 1) i else some i
      return orByte val byte (8 * shift)) 0 = some val ∧
      val.toNat = ByteOrder.value (temp.take n) := by
  induction n with
  | zero => exact ⟨0, rfl, by simp⟩
  | succ n ih =>
    obtain ⟨val, hval, hnat⟩ := ih (by omega)
    have hlt : n < temp.length := by omega
    have hget : temp[n]? = some temp[n] := List.getElem?_eq_getElem hlt
    refine ⟨orByte val temp[n] (8 * n), ?_, ?_⟩
    · rw [List.range_succ, List.foldlM_append, hval]
      simp [hget]
    · have hlt : val.toNat < 2 ^ (8 * n) := by
        have h := ByteOrder.value_lt (temp.take n)
        rwa [← hnat, List.length_take_of_le (by omega), pow_byte] at h
      have hlen : (temp.take n).length = n := List.length_take_of_le (by omega)
      rw [toNat_orByte (bits_le T) (by rw [UIntType.bits]; omega), Nat.or_comm,
        ← Nat.shiftLeft_add_eq_or_of_lt hlt, hnat, List.take_add_one, hget, Option.toList_some,
        ByteOrder.value_concat, hlen, Nat.shiftLeft_eq, pow_byte]
      ring

/-- Most significant byte first: each byte goes below those before it. -/
theorem combine_big (htemp : temp.length = T.sizeof) {n : ℕ} (hn : n ≤ T.sizeof) :
    ∃ val : BitVec T.bits, (List.range n).foldlM (fun (val : BitVec T.bits) i => do
      let byte ← temp[i]?
      let shift ← if true then do sub (← sub T.sizeof 1) i else some i
      return orByte val byte (8 * shift)) 0 = some val ∧
      val.toNat = ByteOrder.value (temp.take n).reverse * 2 ^ (8 * (T.sizeof - n)) := by
  induction n with
  | zero => exact ⟨0, rfl, by simp⟩
  | succ n ih =>
    obtain ⟨val, hval, hnat⟩ := ih (by omega)
    have hlt : n < temp.length := by omega
    have hget : temp[n]? = some temp[n] := List.getElem?_eq_getElem hlt
    refine ⟨orByte val temp[n] (8 * (T.sizeof - 1 - n)), ?_, ?_⟩
    · rw [List.range_succ, List.foldlM_append, hval]
      simp [hget, sub_eq (show 1 ≤ T.sizeof by omega), sub_eq (show n ≤ T.sizeof - 1 by omega)]
    · have hshift : T.sizeof - n = T.sizeof - 1 - n + 1 := by omega
      have hpow : (2 : ℕ) ^ (8 * (T.sizeof - n)) = 2 ^ (8 * (T.sizeof - 1 - n)) * 256 := by
        rw [hshift, Nat.mul_add, Nat.pow_add]
      have hlt : temp[n].toNat <<< (8 * (T.sizeof - 1 - n)) < 2 ^ (8 * (T.sizeof - n)) := by
        rw [Nat.shiftLeft_eq, hpow, Nat.mul_comm]
        exact Nat.mul_lt_mul_of_pos_left temp[n].toNat_lt (by positivity)
      have hrest : T.sizeof - (n + 1) = T.sizeof - 1 - n := by omega
      rw [toNat_orByte (bits_le T) (by rw [UIntType.bits]; omega), hnat, ← Nat.shiftLeft_eq,
        ← Nat.shiftLeft_add_eq_or_of_lt hlt, List.take_add_one, hget, Option.toList_some,
        List.reverse_append, List.reverse_singleton, List.singleton_append, ByteOrder.value_cons,
        Nat.shiftLeft_eq, Nat.shiftLeft_eq, hpow, hrest]
      ring

/-- The loop of _peekType reads the number in its byte order. -/
theorem combine_eq (htemp : temp.length = T.sizeof) (bigEndian : Bool) :
    combine T temp bigEndian = some (T.decode bigEndian temp) := by
  have htake : temp.take T.sizeof = temp := List.take_of_length_le htemp.le
  have hlt := ByteOrder.decode_lt bigEndian temp
  rw [htemp, pow_bits] at hlt
  have hdecode : (T.decode bigEndian temp).toNat = ByteOrder.decode bigEndian temp := by
    rw [UIntType.decode, BitVec.toNat_ofNat, Nat.mod_eq_of_lt hlt]
  cases bigEndian with
  | false =>
    obtain ⟨val, hval, hnat⟩ := combine_little htemp le_rfl
    refine hval.trans (congrArg some (BitVec.eq_of_toNat_eq ?_))
    rw [hnat, htake, hdecode]
    rfl
  | true =>
    obtain ⟨val, hval, hnat⟩ := combine_big htemp le_rfl
    refine hval.trans (congrArg some (BitVec.eq_of_toNat_eq ?_))
    rw [hnat, htake, hdecode, Nat.sub_self]
    exact Nat.mul_one _

end Numbers

section Calls

variable {r : ByteRingBuffer Capacity}

theorem sizeof_pos (T : UIntType) : 0 < T.sizeof := by cases T <;> decide

theorem _peekType_eq (h : r.WellFormed) (T : UIntType) (offset : ℕ)
    (val : Option (BitVec T.bits)) (bigEndian : Bool) :
    r._peekType T offset val bigEndian = some (numberAt T r.contents offset val bigEndian) := by
  rcases val with _ | old
  · rfl
  have hpeek := _peek_some h offset (List.replicate T.sizeof 0)
  rw [List.length_replicate] at hpeek
  simp only [_peekType, numberAt, hpeek, Option.bind_eq_bind, Option.bind_some, length_contents]
  by_cases hle : offset + T.sizeof ≤ r.mSize
  · have hall : min T.sizeof (r.mSize - offset) = T.sizeof := by omega
    have hlen : ((r.contents.drop offset).take T.sizeof).length = T.sizeof := by
      rw [List.length_take_of_le]
      rw [List.length_drop, length_contents]
      omega
    have hfill : fill (List.replicate T.sizeof 0) ((r.contents.drop offset).take T.sizeof) =
        (r.contents.drop offset).take T.sizeof := by
      have hrest : (List.replicate T.sizeof (0 : UInt8)).drop T.sizeof = [] := by simp
      rw [fill, hlen, hrest, List.append_nil]
    rw [if_pos hle, hall, hfill, if_neg (by simp), Option.getD_some, combine_eq hlen]
    rfl
  · have hpos := sizeof_pos T
    have hshort : min T.sizeof (r.mSize - offset) ≠ T.sizeof := by omega
    rw [if_neg hle, if_pos hshort]
    rfl

theorem numberAt_some_iff {T : UIntType} {q : List UInt8} {offset : ℕ} {old : BitVec T.bits}
    {bigEndian : Bool} :
    (numberAt T q offset (some old) bigEndian).1 = true ↔ offset + T.sizeof ≤ q.length := by
  simp only [numberAt]
  split <;> simp [*]

theorem _readType_eq (h : r.WellFormed) (T : UIntType) (val : Option (BitVec T.bits))
    (bigEndian : Bool) :
    ∃ r', (r._readType T val bigEndian).map (fun (a, r) => (typedResult a, r)) =
        some ((takeNumber T r.contents val bigEndian).1, r') ∧ r'.WellFormed ∧
      r'.contents = (takeNumber T r.contents val bigEndian).2 := by
  simp only [_readType, _peekType_eq h, takeNumber, Option.bind_eq_bind, Option.bind_some]
  rcases hok : numberAt T r.contents 0 val bigEndian with ⟨_ | _, a⟩
  · exact ⟨r, rfl, h, rfl⟩
  · rcases val with _ | old
    · simp [numberAt] at hok
    have hlen : T.sizeof ≤ r.mSize := by
      simpa using numberAt_some_iff.mp (congrArg Prod.fst hok)
    obtain ⟨r', hdrop, hr', hcontents⟩ := _drop_le h hlen
    exact ⟨r', by simp [hdrop], hr', hcontents⟩

theorem read_some (h : r.WellFormed) (buf : List UInt8) :
    ∃ r', r.read (some buf) = some ((min buf.length r.mSize,
        some (fill buf (r.contents.take (min buf.length r.mSize)))), r') ∧ r'.WellFormed ∧
      r'.contents = r.contents.drop (min buf.length r.mSize) := by
  have hpeek := _peek_some h 0 buf
  rw [List.drop_zero, Nat.sub_zero] at hpeek
  simp only [read, hpeek, Option.bind_eq_bind, Option.bind_some]
  generalize hn : min buf.length r.mSize = n
  by_cases hzero : n = 0
  · refine ⟨r, ?_, h, by rw [hzero, List.drop_zero]⟩
    split <;> simp [hzero, fill]
  · obtain ⟨r', hdrop, hr', hcontents⟩ := _drop_le h (show n ≤ r.mSize by omega)
    refine ⟨r', ?_, hr', hcontents⟩
    rw [if_neg (by omega), if_pos (by omega), hdrop]
    rfl

theorem peek_some (h : r.WellFormed) (buf : List UInt8) :
    r.peek (some buf) = some (min buf.length r.mSize,
      some (fill buf (r.contents.take (min buf.length r.mSize)))) := by
  have hpeek := _peek_some h 0 buf
  rw [List.drop_zero, Nat.sub_zero] at hpeek
  rw [peek, hpeek]
  by_cases hlen : buf.length = 0
  · simp [hlen, fill]
  · rw [if_neg hlen]

end Calls

section Unchanged

def Operation.observes : Operation → Bool
  | .peek _ | .peek8 .. | .peek16 .. | .peek32 .. | .size | .available => true
  | _ => false

def Result.failed : Result → Bool
  | .count .. => false
  | .answer b => !b
  | .typed _ b _ => !b

variable {r r' : ByteRingBuffer Capacity}

theorem _drop_false {size : ℕ} (h : r._drop size = some (false, r')) : r' = r := by
  simp only [_drop, Option.bind_eq_bind, Option.pure_def] at h
  split at h
  · exact ((Prod.mk.inj (Option.some.inj h)).2).symm
  · obtain ⟨m, -, hm⟩ := Option.bind_eq_some_iff.mp h
    exact absurd (Prod.mk.inj (Option.some.inj hm)).1 (by decide)

theorem _readType_false {T : UIntType} {val after : Option (BitVec T.bits)} {bigEndian : Bool}
    (h : r._readType T val bigEndian = some ((false, after), r')) : r' = r := by
  simp only [_readType, Option.bind_eq_bind, Option.pure_def] at h
  obtain ⟨⟨ok, a⟩, -, hrest⟩ := Option.bind_eq_some_iff.mp h
  cases ok with
  | false => exact ((Prod.mk.inj (Option.some.inj hrest)).2).symm
  | true =>
    obtain ⟨d, -, hd⟩ := Option.bind_eq_some_iff.mp hrest
    exact absurd (Prod.mk.inj (Prod.mk.inj (Option.some.inj hd)).1).1 (by decide)

/-- A typed operation that fails leaves the buffer as it was. -/
theorem typed_failed {T : UIntType} {val : Option (BitVec T.bits)} {bigEndian : Bool}
    {result : Result}
    (h : (r._readType T val bigEndian).map (fun (a, r) => (typedResult a, r)) =
      some (result, r')) (hfailed : result.failed = true) : r' = r := by
  obtain ⟨⟨⟨ok, after⟩, r''⟩, hread, heq⟩ := Option.map_eq_some_iff.mp h
  obtain ⟨rfl, rfl⟩ := Prod.mk.inj heq
  obtain rfl : ok = false := by simpa [typedResult, Result.failed] using hfailed
  exact _readType_false hread

/-- Looking into the buffer leaves it as it is, and so does a call that fails. -/
theorem apply_unchanged {a : Operation} {result : Result} (h : r.apply a = some (result, r'))
    (ha : a.observes = true ∨ result.failed = true) : r' = r := by
  have hlook {α : Type} {f : α → Result} {o : Option α}
      (h : o.map (fun x => (f x, r)) = some (result, r')) : r' = r := by
    obtain ⟨x, -, heq⟩ := Option.map_eq_some_iff.mp h
    exact (Prod.mk.inj heq).2.symm
  cases a with
  | write buf =>
    obtain ⟨⟨n, r''⟩, -, heq⟩ := Option.map_eq_some_iff.mp h
    simp [Operation.observes, Result.failed, ← (Prod.mk.inj heq).1] at ha
  | read buf =>
    obtain ⟨⟨⟨n, b⟩, r''⟩, -, heq⟩ := Option.map_eq_some_iff.mp h
    simp [Operation.observes, Result.failed, ← (Prod.mk.inj heq).1] at ha
  | drop size =>
    obtain ⟨⟨b, r''⟩, hdrop, heq⟩ := Option.map_eq_some_iff.mp h
    obtain ⟨rfl, rfl⟩ := Prod.mk.inj heq
    obtain rfl : b = false := by simpa [Operation.observes, Result.failed] using ha
    exact _drop_false hdrop
  | read8 val => exact typed_failed h (ha.resolve_left (by simp [Operation.observes]))
  | read16 val bigEndian => exact typed_failed h (ha.resolve_left (by simp [Operation.observes]))
  | read32 val bigEndian => exact typed_failed h (ha.resolve_left (by simp [Operation.observes]))
  | peek buf => exact hlook (f := fun (x : ℕ × Option (List UInt8)) => .count x.1 x.2) h
  | peek8 offset val => exact hlook h
  | peek16 offset val bigEndian => exact hlook h
  | peek32 offset val bigEndian => exact hlook h
  | size => exact (Prod.mk.inj (Option.some.inj h)).2.symm
  | available => exact hlook h

end Unchanged

section Refinement

/-- The buffer is well formed and its bytes are those of the queue. -/
structure Represents (r : ByteRingBuffer Capacity) (q : List UInt8) : Prop where
  wellFormed : r.WellFormed
  contents : r.contents = q

theorem new_wellFormed : (new : ByteRingBuffer Capacity).WellFormed where
  size_le := Nat.zero_le _
  front_lt := Capacity.pos
  rear := (Nat.zero_mod _).symm

/-- A new buffer represents the empty queue. -/
theorem represents_new : Represents (new : ByteRingBuffer Capacity) [] :=
  ⟨new_wellFormed, rfl⟩

/-- One call: no copy leaves its blocks and no difference wraps. -/
theorem apply_represents (r : ByteRingBuffer Capacity) (q : List UInt8) (a : Operation)
    (h : Represents r q) :
    ∃ r', r.apply a = some (((specification Capacity).apply q a).1, r') ∧
      Represents r' ((specification Capacity).apply q a).2 := by
  obtain ⟨hr, rfl⟩ := h
  have hread (T : UIntType) (val : Option (BitVec T.bits)) (bigEndian : Bool) :
      ∃ r', (r._readType T val bigEndian).map (fun (a, r) => (typedResult a, r)) =
          some ((takeNumber T r.contents val bigEndian).1, r') ∧
        Represents r' (takeNumber T r.contents val bigEndian).2 := by
    obtain ⟨r', hrun, hr', hcontents⟩ := _readType_eq hr T val bigEndian
    exact ⟨r', hrun, hr', hcontents⟩
  have hpeek (T : UIntType) (offset : ℕ) (val : Option (BitVec T.bits)) (bigEndian : Bool) :
      ∃ r', (r._peekType T offset val bigEndian).map (fun a => (typedResult a, r)) =
          some (typedResult (numberAt T r.contents offset val bigEndian), r') ∧
        Represents r' r.contents :=
    ⟨r, by rw [_peekType_eq hr]; rfl, hr, rfl⟩
  cases a with
  | write buf =>
    rcases buf with _ | buf
    · exact ⟨r, rfl, hr, rfl⟩
    · obtain ⟨r', hwrite, hr', hcontents⟩ := write_some hr buf
      refine ⟨r', ?_, hr', ?_⟩ <;>
        simp only [apply, specification, hwrite, hcontents, length_contents, Option.map_some]
  | read buf =>
    rcases buf with _ | buf
    · exact ⟨r, rfl, hr, rfl⟩
    · obtain ⟨r', hread, hr', hcontents⟩ := read_some hr buf
      refine ⟨r', ?_, hr', ?_⟩ <;>
        simp only [apply, specification, hread, hcontents, length_contents, Option.map_some]
  | peek buf =>
    rcases buf with _ | buf
    · exact ⟨r, rfl, hr, rfl⟩
    · refine ⟨r, ?_, hr, rfl⟩
      simp only [apply, specification, peek_some hr, length_contents, Option.map_some]
  | drop size =>
    by_cases hle : size ≤ r.mSize
    · obtain ⟨r', hdrop, hr', hcontents⟩ := _drop_le hr hle
      refine ⟨r', ?_, hr', ?_⟩ <;>
        simp [apply, drop, specification, hdrop, hcontents, hle]
    · refine ⟨r, ?_, hr, ?_⟩ <;>
        simp [apply, drop, specification, _drop_gt (Nat.not_le.mp hle), hle]
  | read8 val => exact hread .uint8 val false
  | read16 val bigEndian => exact hread .uint16 val bigEndian
  | read32 val bigEndian => exact hread .uint32 val bigEndian
  | peek8 offset val => exact hpeek .uint8 offset val false
  | peek16 offset val bigEndian => exact hpeek .uint16 offset val bigEndian
  | peek32 offset val bigEndian => exact hpeek .uint32 offset val bigEndian
  | size => exact ⟨r, by simp [apply, size, specification], hr, rfl⟩
  | available =>
    exact ⟨r, by simp [apply, available, specification, sub_eq hr.size_le], hr, rfl⟩

/-- Every operation answers as the queue does, and leaves a buffer that represents what the queue
has become. -/
theorem implements : Implements (object Capacity) (specification Capacity) Represents where
  initial := represents_new
  apply := apply_represents

/-- Every sequence of calls on an empty buffer is answered as by the bounded queue, and leaves
the bytes of that queue from the front on. -/
theorem byte_queue (Capacity : ℕ+) (as : List Operation) :
    ∃ r, (object Capacity).run new as =
        some (((specification Capacity).run [] as).1, r) ∧
      r.mSize ≤ Capacity ∧ r.mFront < Capacity ∧
      r.mRear = (r.mFront + r.mSize) % Capacity ∧
      r.contents = ((specification Capacity).run [] as).2 ∧
      ∀ a result r', r.apply a = some (result, r') →
        a.observes = true ∨ result.failed = true → r' = r := by
  obtain ⟨r, hrun, hr, hcontents⟩ := implements.run as
  exact ⟨r, hrun, hr.size_le, hr.front_lt, hr.rear, hcontents, fun _ _ _ => apply_unchanged⟩

example : ((object (Nat.succPNat 3)).run new
    [.write (some [1, 2, 3]), .read (some [0, 0]), .write (some [4, 5, 6, 7]), .size,
      .read32 (some 9) true, .read8 (some 9)]).map Prod.fst =
    some [.count 3 (some [1, 2, 3]), .count 2 (some [1, 2]), .count 3 (some [4, 5, 6, 7]),
      .count 4 none, .typed .uint32 true (some 0x03040506), .typed .uint8 false (some 9)] := by
  decide +kernel

end Refinement

end CWrapper.ByteRingBuffer
