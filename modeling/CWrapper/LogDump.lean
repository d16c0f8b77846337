import CWrapper.HexText
import CWrapper.Words

/-!
Log.cpp: LOG_Dump. A line is put together in a buffer of 128 characters. How many bytes it shows
is computed as an int, to which the length that is left is truncated.
-/
namespace CWrapper.LogDump

open HexText

abbrev Line := List Char

structure Block where
  bytes : List UInt8
  fits : bytes.length < 2 ^ 64

/-- Write at pos, which is the number of characters before it. There is no result when pos would
go beyond 127. -/
def put (buffer text : List Char) : Option (List Char) :=
  if (buffer ++ text).length ≤ 127 then some (buffer ++ text) else none

def IS_PRINTABLE (c : ℤ) : Bool := 32 ≤ c && c ≤ 126

def remainAt (len offset : ℕ) : ℤ :=
  let remain := (BitVec.ofNat 32 (len - offset)).toInt
  if 16 < remain then 16 else remain

def header (offset : ℕ) : List Char := ['0', 'x'] ++ hex 4 offset ++ [' ', ' ']

def hexColumn (data : List UInt8) (offset : ℕ) (remain : ℤ) (buffer : List Char) (i : ℕ) :
    Option (List Char) := do
  let buffer ← if i = 8 then put buffer [' '] else some buffer
  if i < remain then
    let byte ← data[offset + i]?
    put buffer (hex 2 byte.toNat ++ [' '])
  else put buffer [' ', ' ', ' ']

/-- A char is signed. -/
def textColumn (data : List UInt8) (offset : ℕ) (buffer : List Char) (i : ℕ) :
    Option (List Char) := do
  let byte ← data[offset + i]?
  put buffer [if IS_PRINTABLE byte.toBitVec.toInt then Char.ofNat byte.toNat else '.']

def lineAt (data : List UInt8) (offset : ℕ) : Option Line := do
  let remain := remainAt data.length offset
  let buffer ← put [] (header offset)
  let buffer ← (List.range 16).foldlM (hexColumn data offset remain) buffer
  let buffer ← put buffer [' ']
  let buffer ← (List.range remain.toNat).foldlM (textColumn data offset) buffer
  put buffer ['\n']

/-- The lines up to the end of the loop, if it comes to an end. -/
def loop (data : List UInt8) : ℕ → ℕ → Option (List Line)
  | 0, _ => none
  | fuel + 1, offset =>
      if offset < data.length then do
        let line ← lineAt data offset
        let lines ← loop data fuel ((offset + 16) % 2 ^ 64)
        return line :: lines
      else some []

def LOG_Dump (gLogLevel priority : ℤ) (ptr : Option Block) (fuel : ℕ) : Option (List Line) :=
  if gLogLevel < priority then some []
  else
    match ptr with
    | none => some []
    | some data => if data.bytes.length = 0 then some [] else loop data.bytes fuel 0

section Buffer

variable {β : Type*}

theorem put_put (buffer text more : List Char) :
    (put buffer text).bind (fun b => put b more) = put buffer (text ++ more) := by
  unfold put
  by_cases h : (buffer ++ text).length ≤ 127
  · rw [if_pos h, Option.bind_some, List.append_assoc]
  · rw [if_neg h, Option.bind_none, if_neg]
    simp only [List.length_append] at h ⊢
    omega

/-- A loop that only writes writes everything at once. -/
theorem put_foldlM (buffer text : List Char) (f : ℕ → List Char) (is : List ℕ) :
    (put buffer text).bind (fun b => is.foldlM (fun b i => put b (f i)) b) =
      put buffer (text ++ is.flatMap f) := by
  induction is generalizing text with
  | nil => simp
  | cons i is ih =>
    rw [List.flatMap_cons, ← List.append_assoc, ← ih, ← put_put, Option.bind_assoc]
    rfl

theorem foldlM_congr {f g : β → ℕ → Option β} {is : List ℕ}
    (h : ∀ i ∈ is, ∀ b, f b i = g b i) (b : β) : is.foldlM f b = is.foldlM g b := by
  induction is generalizing b with
  | nil => rfl
  | cons i is ih =>
    have htail : ∀ b, is.foldlM f b = is.foldlM g b :=
      ih fun j hj => h j (List.mem_cons_of_mem i hj)
    rw [List.foldlM_cons, List.foldlM_cons, h i List.mem_cons_self, funext htail]

end Buffer

section Lines

def cell (bytes : List UInt8) (i : ℕ) : List Char :=
  match bytes[i]? with
  | some byte => hex 2 byte.toNat ++ [' ']
  | none => [' ', ' ', ' ']

def printable (byte : UInt8) : Char :=
  if 32 ≤ byte ∧ byte ≤ 126 then Char.ofNat byte.toNat else '.'

def cells (bytes : List UInt8) : List Char :=
  (List.range' 0 8).flatMap (cell bytes) ++ ([' '] ++ (List.range' 8 8).flatMap (cell bytes))

def rendered (offset : ℕ) (bytes : List UInt8) : Line :=
  header offset ++ (cells bytes ++ ([' '] ++ (bytes.map printable ++ ['\n'])))

def bytesAt (data : List UInt8) (offset : ℕ) : List UInt8 :=
  (data.drop offset).take (remainAt data.length offset).toNat

variable {data : List UInt8} {offset i : ℕ}

theorem remainAt_le (len offset : ℕ) : (remainAt len offset).toNat ≤ min 16 (len - offset) := by
  have hle : (BitVec.ofNat 32 (len - offset)).toInt ≤ ((len - offset : ℕ) : ℤ) := by
    have hmod : (BitVec.ofNat 32 (len - offset)).toNat ≤ len - offset := by
      rw [BitVec.toNat_ofNat]
      exact Nat.mod_le _ _
    have hint := BitVec.toInt_eq_toNat_cond (BitVec.ofNat 32 (len - offset))
    split at hint <;> omega
  simp only [remainAt]
  split <;> omega

theorem length_bytesAt : (bytesAt data offset).length = (remainAt data.length offset).toNat := by
  have hle := remainAt_le data.length offset
  rw [bytesAt, List.length_take, List.length_drop]
  omega

theorem getElem?_bytesAt (h : i < (remainAt data.length offset).toNat) :
    (bytesAt data offset)[i]? = data[offset + i]? := by
  rw [bytesAt, List.getElem?_take_of_lt h, List.getElem?_drop]

theorem isPrintable_eq (byte : UInt8) :
    (if IS_PRINTABLE byte.toBitVec.toInt then Char.ofNat byte.toNat else '.') =
      printable byte := by
  have hiff : IS_PRINTABLE byte.toBitVec.toInt = true ↔ 32 ≤ byte ∧ byte ≤ 126 := by
    have hlt := byte.toNat_lt
    have hint := BitVec.toInt_eq_toNat_cond byte.toBitVec
    have hnat : byte.toBitVec.toNat = byte.toNat := rfl
    have hlow : (32 : UInt8).toNat = 32 := rfl
    have hhigh : (126 : UInt8).toNat = 126 := rfl
    rw [IS_PRINTABLE, Bool.and_eq_true, decide_eq_true_iff, decide_eq_true_iff,
      UInt8.le_iff_toNat_le, UInt8.le_iff_toNat_le, hlow, hhigh]
    split at hint <;> omega
  simp only [printable, hiff]

theorem hexColumn_eq (buffer : List Char) : hexColumn data offset (remainAt data.length offset)
    buffer i = put buffer ((if i = 8 then [' '] else []) ++ cell (bytesAt data offset) i) := by
  have hcell : ∀ b, (if (i : ℤ) < remainAt data.length offset then
      (data[offset + i]?).bind fun byte => put b (hex 2 byte.toNat ++ [' '])
      else put b [' ', ' ', ' ']) = put b (cell (bytesAt data offset) i) := by
    intro b
    by_cases hi : (i : ℤ) < remainAt data.length offset
    · have hat : (bytesAt data offset)[i]? = data[offset + i]? := getElem?_bytesAt (by omega)
      have hlt : i < (bytesAt data offset).length := by
        rw [length_bytesAt]
        omega
      rw [if_pos hi, cell, ← hat, List.getElem?_eq_getElem hlt]
      rfl
    · have hnone : (bytesAt data offset)[i]? = none := by
        rw [List.getElem?_eq_none_iff, length_bytesAt]
        omega
      rw [if_neg hi, cell, hnone]
  by_cases hgap : i = 8
  · rw [hexColumn, if_pos hgap, if_pos hgap, ← put_put]
    exact congrArg (Option.bind _) (funext hcell)
  · rw [hexColumn, if_neg hgap, if_neg hgap, List.nil_append]
    exact hcell buffer

theorem textColumn_eq (hi : i < (remainAt data.length offset).toNat) (buffer : List Char) :
    textColumn data offset buffer i =
      put buffer (((bytesAt data offset)[i]?.map printable).toList) := by
  have hlt : i < (bytesAt data offset).length := by
    rw [length_bytesAt]
    exact hi
  rw [textColumn, ← getElem?_bytesAt hi, List.getElem?_eq_getElem hlt, Option.map_some,
    Option.toList_some, ← isPrintable_eq]
  rfl

theorem flatMap_range_toList {α β : Type*} (xs : List α) (f : α → β) :
    ((List.range xs.length).flatMap fun i => (xs[i]?.map f).toList) = xs.map f := by
  induction xs with
  | nil => rfl
  | cons x xs ih =>
    rw [List.length_cons, List.range_succ_eq_map, List.flatMap_cons, List.flatMap_map,
      List.map_cons, ← ih]
    rfl

/-- The columns of a line, the gap among them. -/
theorem flatMap_range_cells (bytes : List UInt8) :
    (List.range 16).flatMap (fun i => (if i = 8 then [' '] else []) ++ cell bytes i) =
      cells bytes := by
  have hsplit : List.range 16 = List.range' 0 8 ++ 8 :: List.range' 9 7 := rfl
  have hstart : List.range' 8 8 = 8 :: List.range' 9 7 := rfl
  have hplain : ∀ is : List ℕ, 8 ∉ is →
      is.flatMap (fun i => (if i = 8 then [' '] else []) ++ cell bytes i) =
        is.flatMap (cell bytes) := by
    intro is his
    apply List.flatMap_congr
    intro i hi
    have hne : i ≠ 8 := fun heq => his (heq ▸ hi)
    rw [if_neg hne, List.nil_append]
  rw [hsplit, List.flatMap_append, List.flatMap_cons, hplain _ (by decide), hplain _ (by decide),
    if_pos rfl, cells, hstart, List.flatMap_cons, List.append_assoc]

theorem length_cell (bytes : List UInt8) (i : ℕ) : (cell bytes i).length = 3 := by
  unfold cell
  split
  · rw [hex_byte]
    rfl
  · rfl

theorem length_cells (bytes : List UInt8) : (cells bytes).length = 49 := by
  simp [cells, List.length_flatMap, length_cell]

/-- All of a line fits in the buffer. -/
theorem length_rendered_le (hoffset : offset < 2 ^ 64) {bytes : List UInt8}
    (hbytes : bytes.length ≤ 16) : (rendered offset bytes).length ≤ 127 := by
  have hhex : (hex 4 offset).length ≤ 16 :=
    length_hex_le (by decide) (by omega)
  simp only [rendered, header, List.length_append, List.length_map, length_cells,
    List.length_cons, List.length_nil]
  omega

/-- The line at an offset, as snprintf leaves it in the buffer. -/
theorem lineAt_eq (hoffset : offset < 2 ^ 64) :
    lineAt data offset = some (rendered offset (bytesAt data offset)) := by
  have hhex : ∀ b, (List.range 16).foldlM (hexColumn data offset (remainAt data.length offset)) b =
      (List.range 16).foldlM (fun b i => put b ((if i = 8 then [' '] else []) ++
        cell (bytesAt data offset) i)) b :=
    foldlM_congr fun i _ b => hexColumn_eq b
  have htext : ∀ b, (List.range (remainAt data.length offset).toNat).foldlM
      (textColumn data offset) b = (List.range (remainAt data.length offset).toNat).foldlM
        (fun b i => put b ((bytesAt data offset)[i]?.map printable).toList) b :=
    foldlM_congr fun i hi b => textColumn_eq (List.mem_range.mp hi) b
  have hbytes : (bytesAt data offset).length ≤ 16 := by
    have hle := remainAt_le data.length offset
    rw [length_bytesAt]
    omega
  have hline : lineAt data offset = put [] (rendered offset (bytesAt data offset)) := by
    simp only [lineAt, hhex, htext, Option.bind_eq_bind, ← Option.bind_assoc, put_foldlM, put_put,
      flatMap_range_cells]
    rw [← length_bytesAt, flatMap_range_toList]
    simp only [rendered, List.append_assoc]
  rw [hline, put, List.nil_append, if_pos (length_rendered_le hoffset hbytes)]

end Lines

end CWrapper.LogDump
