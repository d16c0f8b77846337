import CWrapper.LogDump

/-!
The lines of LOG_Dump read back. They show every byte once as long as the length that is left fits
in an int; a line that starts with more than that left shows no byte at all.
-/
namespace CWrapper.LogDump

open HexText

section Reading

def readCells : ℕ → List Char → List UInt8
  | n + 1, high :: low :: _ :: rest => (readByte high low).toList ++ readCells n rest
  | _, _ => []

def body (line : Line) : List Char := (line.dropWhile (· ≠ ' ')).drop 2

def readBytes (line : Line) : List UInt8 :=
  readCells 8 (body line) ++ readCells 8 ((body line).drop 25)

def textOf (line : Line) : List Char := ((body line).drop 50).dropLast

/-- The lines show the bytes of the block: each starts with its offset, the hexadecimal columns
are the bytes, and the text has a character for each. -/
structure ShowsAll (data : List UInt8) (lines : List Line) : Prop where
  count : lines.length = (data.length + 15) / 16
  offsets : ∀ j line, lines[j]? = some line → header (16 * j) <+: line
  bytes : lines.flatMap readBytes = data
  text : ∀ line ∈ lines, textOf line = (readBytes line).map printable

def Dumps (data : List UInt8) : Prop :=
  ∃ fuel lines, loop data fuel 0 = some lines ∧ ShowsAll data lines

variable {offset : ℕ} {bytes : List UInt8}

theorem dropWhile_append {xs ys : List Char} (h : ' ' ∉ xs) :
    (xs ++ ' ' :: ys).dropWhile (· ≠ ' ') = ' ' :: ys := by
  rw [List.dropWhile_append_of_pos]
  · simp
  · intro c hc
    have hne : c ≠ ' ' := fun heq => h (heq ▸ hc)
    simpa using hne

theorem body_rendered (offset : ℕ) (bytes : List UInt8) : body (rendered offset bytes) =
    cells bytes ++ ([' '] ++ (bytes.map printable ++ ['\n'])) := by
  have hnot : ' ' ∉ ['0', 'x'] ++ hex 4 offset := by
    rw [List.mem_append, not_or]
    exact ⟨by decide, not_mem_hex 4 offset⟩
  have hline : rendered offset bytes = (['0', 'x'] ++ hex 4 offset) ++
      ' ' :: ' ' :: (cells bytes ++ ([' '] ++ (bytes.map printable ++ ['\n']))) := by
    simp [rendered, header]
  rw [body, hline, dropWhile_append hnot]
  rfl

theorem readCells_cells (bytes : List UInt8) (rest : List Char) (n start : ℕ) :
    readCells n ((List.range' start n).flatMap (cell bytes) ++ rest) =
      (bytes.drop start).take n := by
  induction n generalizing start with
  | zero => simp [readCells]
  | succ n ih =>
    rw [List.range'_succ, List.flatMap_cons]
    cases hat : bytes[start]? with
    | none =>
      have hend : bytes.length ≤ start := List.getElem?_eq_none_iff.mp hat
      have hnil : bytes.drop start = [] := List.drop_of_length_le hend
      have htail : bytes.drop (start + 1) = [] := List.drop_of_length_le (by omega)
      have hrest := ih (start + 1)
      rw [htail, List.take_nil] at hrest
      simp only [cell, hat, List.cons_append, List.nil_append, readCells, readByte_space, hrest,
        hnil, Option.toList_none, List.take_nil]
    | some byte =>
      obtain ⟨hlt, rfl⟩ := List.getElem?_eq_some_iff.mp hat
      simp only [cell, hat, hex_byte, List.cons_append, List.nil_append, readCells, readByte_hex,
        ih, Option.toList_some]
      rw [List.drop_eq_getElem_cons hlt, List.take_succ_cons]

/-- The hexadecimal columns of a line give back the bytes that it was made of. -/
theorem readBytes_rendered (h : bytes.length ≤ 16) : readBytes (rendered offset bytes) = bytes := by
  have hlength : ((List.range' 0 8).flatMap (cell bytes) ++ [' ']).length = 25 := by
    simp [List.length_flatMap, length_cell]
  have hparts : body (rendered offset bytes) =
      ((List.range' 0 8).flatMap (cell bytes) ++ [' ']) ++
        ((List.range' 8 8).flatMap (cell bytes) ++
          ([' '] ++ (bytes.map printable ++ ['\n']))) := by
    rw [body_rendered, cells]
    simp only [List.append_assoc]
  have hfirst : readCells 8 (body (rendered offset bytes)) = bytes.take 8 := by
    rw [hparts, List.append_assoc, readCells_cells, List.drop_zero]
  have hsecond : readCells 8 ((body (rendered offset bytes)).drop 25) = (bytes.drop 8).take 8 := by
    rw [hparts, List.drop_left' hlength, readCells_cells]
  have hrest : (bytes.drop 8).length ≤ 8 := by
    rw [List.length_drop]
    omega
  rw [readBytes, hfirst, hsecond, List.take_of_length_le hrest, List.take_append_drop]

theorem textOf_rendered : textOf (rendered offset bytes) = bytes.map printable := by
  have hlength : (cells bytes ++ [' ']).length = 50 := by
    rw [List.length_append, length_cells]
    rfl
  rw [textOf, body_rendered, ← List.append_assoc, List.drop_left' hlength, List.dropLast_concat]

theorem length_readCells (n : ℕ) (text : List Char) : (readCells n text).length ≤ n := by
  induction n generalizing text with
  | zero => simp [readCells]
  | succ n ih =>
    match text with
    | [] | [_] | [_, _] => simp [readCells]
    | high :: low :: _ :: rest =>
      have hone := Option.length_toList_le (o := readByte high low)
      have hrest := ih rest
      rw [readCells, List.length_append]
      omega

theorem length_readBytes (line : Line) : (readBytes line).length ≤ 16 := by
  have hfirst := length_readCells 8 (body line)
  have hsecond := length_readCells 8 ((body line).drop 25)
  rw [readBytes, List.length_append]
  omega

end Reading

section Loop

variable {data : List UInt8} {fuel offset : ℕ} {lines : List Line}

theorem bytesAt_of_fits (hint : data.length - offset < 2 ^ 31) :
    bytesAt data offset = (data.drop offset).take 16 := by
  have hremain : remainAt data.length offset = min 16 ((data.length - offset : ℕ) : ℤ) := by
    have hvalue := SignedWords.toInt_ofNat_of_lt (w := 32) (n := data.length - offset) (by omega)
    simp only [remainAt, hvalue]
    split <;> omega
  rw [bytesAt, hremain]
  rcases Nat.le_total 16 (data.length - offset) with hle | hle
  · congr 1
    omega
  · rw [List.take_of_length_le (by rw [List.length_drop]; omega),
      List.take_of_length_le (by rw [List.length_drop]; omega)]

/-- Too much left reads as a negative number. -/
theorem bytesAt_of_negative (hlow : 2 ^ 31 ≤ data.length - offset)
    (hhigh : data.length - offset < 2 ^ 32) : bytesAt data offset = [] := by
  have hint := BitVec.toInt_eq_toNat_cond (BitVec.ofNat 32 (data.length - offset))
  rw [BitVec.toNat_ofNat, Nat.mod_eq_of_lt hhigh, if_neg (by omega)] at hint
  have hremain : remainAt data.length offset ≤ 0 := by
    simp only [remainAt, hint]
    split <;> omega
  have hzero : (remainAt data.length offset).toNat = 0 := by omega
  rw [bytesAt, hzero, List.take_zero]

structure ShowsFrom (data : List UInt8) (offset : ℕ) (lines : List Line) : Prop where
  count : lines.length = (data.length - offset + 15) / 16
  offsets : ∀ j line, lines[j]? = some line → header (offset + 16 * j) <+: line
  bytes : lines.flatMap readBytes = data.drop offset
  text : ∀ line ∈ lines, textOf line = (readBytes line).map printable

theorem showsFrom_end (h : data.length ≤ offset) : ShowsFrom data offset [] where
  count := by
    rw [List.length_nil]
    omega
  offsets j line hat := by simp at hat
  bytes := (List.drop_of_length_le h).symm
  text line hline := by cases hline

theorem showsFrom_cons (hlt : offset < data.length)
    (hrest : ShowsFrom data (offset + 16) lines) :
    ShowsFrom data offset (rendered offset ((data.drop offset).take 16) :: lines) where
  count := by
    rw [List.length_cons, hrest.count]
    omega
  offsets j line hat := by
    cases j with
    | zero =>
      obtain rfl := Option.some.inj hat
      exact List.prefix_append _ _
    | succ j =>
      have hnext := hrest.offsets j line hat
      have heq : offset + 16 + 16 * j = offset + 16 * (j + 1) := by omega
      rwa [heq] at hnext
  bytes := by
    have hshort : ((data.drop offset).take 16).length ≤ 16 := List.length_take_le _ _
    rw [List.flatMap_cons, readBytes_rendered hshort, hrest.bytes, ← List.drop_drop,
      List.take_append_drop]
  text line hline := by
    rcases List.mem_cons.mp hline with rfl | htail
    · rw [textOf_rendered, readBytes_rendered (List.length_take_le _ _)]
    · exact hrest.text line htail

/-- The loop shows the rest of the block when the rest fits into an int. The induction is on the
bytes that remain. -/
theorem loop_shows (hint : data.length < 2 ^ 31) (hfuel : data.length ≤ offset + 16 * fuel) :
    ∃ lines, loop data (fuel + 1) offset = some lines ∧ ShowsFrom data offset lines := by
  induction fuel generalizing offset with
  | zero =>
    rw [loop, if_neg (by omega)]
    exact ⟨[], rfl, showsFrom_end (by omega)⟩
  | succ fuel ih =>
    rw [loop]
    by_cases hlt : offset < data.length
    · have hnext : (offset + 16) % 2 ^ 64 = offset + 16 := Nat.mod_eq_of_lt (by omega)
      obtain ⟨lines, hloop, hshows⟩ := @ih (offset + 16) (by omega)
      rw [if_pos hlt, lineAt_eq (by omega), hnext, hloop, bytesAt_of_fits (by omega)]
      exact ⟨_, rfl, showsFrom_cons hlt hshows⟩
    · rw [if_neg hlt]
      exact ⟨[], rfl, showsFrom_end (by omega)⟩

/-- An empty block makes no difference to what is dumped. -/
theorem LOG_Dump_eq {gLogLevel priority : ℤ} (h : priority ≤ gLogLevel) (block : Block) :
    LOG_Dump gLogLevel priority (some block) (fuel + 1) = loop block.bytes (fuel + 1) 0 := by
  rw [LOG_Dump, if_neg (not_lt.mpr h)]
  by_cases hempty : block.bytes.length = 0
  · simp [hempty, loop]
  · simp [hempty]

/-- The lines are those of the offsets in turn, as long as the offset does not wrap. -/
theorem loop_getElem (h : loop data fuel offset = some lines) {j : ℕ} {line : Line}
    (hat : lines[j]? = some line) (hwrap : offset + 16 * j < 2 ^ 64) :
    lineAt data (offset + 16 * j) = some line := by
  induction fuel generalizing offset lines j with
  | zero => cases h
  | succ fuel ih =>
    rw [loop] at h
    split at h
    · obtain ⟨first, hfirst, h⟩ := Option.bind_eq_some_iff.mp h
      obtain ⟨rest, hrest, h⟩ := Option.bind_eq_some_iff.mp h
      obtain rfl := Option.some.inj h
      cases j with
      | zero =>
        obtain rfl := Option.some.inj hat
        exact hfirst
      | succ j =>
        have hnext : (offset + 16) % 2 ^ 64 = offset + 16 := Nat.mod_eq_of_lt (by omega)
        rw [hnext] at hrest
        have heq : offset + 16 + 16 * j = offset + 16 * (j + 1) := by omega
        rw [← heq]
        exact ih hrest hat (by omega)
    · obtain rfl := Option.some.inj h
      simp at hat

/-- A line without bytes leaves too few for the others. -/
theorem length_flatMap_lt {j : ℕ} {line : Line} (hat : lines[j]? = some line)
    (hempty : readBytes line = []) :
    (lines.flatMap readBytes).length + 16 ≤ 16 * lines.length := by
  have hle : ∀ ls : List Line, (ls.flatMap readBytes).length ≤ 16 * ls.length := by
    intro ls
    induction ls with
    | nil => simp
    | cons l ls ih =>
      have hl := length_readBytes l
      rw [List.flatMap_cons, List.length_append, List.length_cons]
      omega
  obtain ⟨hlt, hj⟩ := List.getElem?_eq_some_iff.mp hat
  have hbefore := hle (lines.take j)
  have hafter := hle (lines.drop (j + 1))
  have hsplit : lines = lines.take j ++ line :: lines.drop (j + 1) := by
    rw [← hj, List.getElem_cons_drop, List.take_append_drop]
  have hlength := congrArg List.length hsplit
  have hread := congrArg (fun ls => (ls.flatMap readBytes).length) hsplit
  simp only [List.flatMap_append, List.flatMap_cons, hempty, List.length_append,
    List.length_nil, List.length_cons] at hread hlength
  omega

/-- A block that is too long has a line that starts with more left than an int holds. -/
theorem not_dumps (hfits : data.length < 2 ^ 64) (hlong : 2 ^ 31 ≤ data.length) :
    ¬Dumps data := by
  intro ⟨fuel, lines, hloop, hshows⟩
  let j := (data.length - 2 ^ 31) / 16
  have hj : j < lines.length := by
    rw [hshows.count]
    omega
  have hat : lines[j]? = some lines[j] := List.getElem?_eq_getElem hj
  have hline := loop_getElem hloop hat (by omega)
  rw [Nat.zero_add, lineAt_eq (by omega), bytesAt_of_negative (by omega) (by omega)] at hline
  have hempty : readBytes lines[j] = [] := by
    rw [← Option.some.inj hline]
    exact readBytes_rendered (by simp)
  have hlt := length_flatMap_lt hat hempty
  rw [hshows.bytes, hshows.count] at hlt
  omega

/-- Every byte is shown once exactly when the length fits in an int. -/
theorem dump_shows_all_iff (block : Block) :
    Dumps block.bytes ↔ block.bytes.length ≤ 2147483647 := by
  constructor
  · intro h
    by_contra hlong
    exact not_dumps block.fits (by omega) h
  · intro h
    have hfuel : block.bytes.length ≤ 0 + 16 * block.bytes.length := by omega
    obtain ⟨lines, hloop, hshows⟩ := loop_shows (by omega) hfuel
    refine ⟨_, lines, hloop, hshows.count, fun j line hat => ?_, hshows.bytes, hshows.text⟩
    have hoffset := hshows.offsets j line hat
    rwa [Nat.zero_add] at hoffset

/-- A block of 2 GiB is not shown. -/
theorem two_gigabytes_not_shown : ¬Dumps (List.replicate 2147483648 0) := by
  apply not_dumps
  · rw [List.length_replicate]
    omega
  · rw [List.length_replicate]
    omega

end Loop

end CWrapper.LogDump
