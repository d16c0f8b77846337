import CWrapper.SimplifyFunction

/-!
What simplify_function leaves in buf: the bare name if the loop over the spaces finds one, and
otherwise, from the first character on, what was there before.
-/
namespace CWrapper.SimplifyFunction

open StringSearch

section Copying

variable {a : Arguments} {buf buf' : List UInt8} {i n : ℕ}

theorem overwrite_append (done : List UInt8) {rest xs : List UInt8} (h : xs.length ≤ rest.length) :
    Memory.overwrite (done ++ rest) done.length xs =
      some (done ++ xs ++ rest.drop xs.length) := by
  rw [Memory.overwrite_eq (by rw [List.length_append]; omega), List.take_left,
    List.drop_append, List.drop_of_length_le (by omega)]
  congr 3
  rw [Nat.add_sub_cancel_left, List.nil_append]

/-- Characters of func are copied as they are. -/
theorem strncpy_func (done rest : List UInt8) {xs : List UInt8} {k : ℕ}
    (hsrc : xs <+: a.chars.drop k) (hroom : xs.length ≤ rest.length) :
    strncpy a (.func k) xs.length done.length (done ++ rest) =
      some (done ++ xs ++ rest.drop xs.length) := by
  induction xs generalizing k done rest with
  | nil => simp [strncpy]
  | cons c xs ih =>
    obtain ⟨more, hmore⟩ := hsrc
    have hc : a.chars[k]? = some c := by
      rw [← Nat.add_zero k, ← List.getElem?_drop, ← hmore]
      rfl
    have hload : a.load (done ++ rest) (.func k) = some c := by
      have hlt := (List.getElem?_eq_some_iff.mp hc).1
      rw [Arguments.load, List.getElem?_append_left hlt, hc]
    have hne : c ≠ 0 := by
      intro hzero
      exact a.noNul (hzero ▸ List.mem_of_getElem? hc)
    have htail : xs <+: a.chars.drop (k + 1) := by
      rw [← List.drop_drop, ← hmore]
      exact List.prefix_append xs more
    rw [List.length_cons] at hroom
    have hone : Memory.overwrite (done ++ rest) done.length [c] =
        some (done ++ [c] ++ rest.drop 1) :=
      overwrite_append done (by simp; omega)
    have hrest := ih (done ++ [c]) (rest.drop 1) htail (by simp; omega)
    rw [List.length_append, List.length_singleton] at hrest
    rw [List.length_cons, strncpy, hload]
    simp only [Option.bind_eq_bind, Option.bind_some, hone, if_neg hne, Pointer.add]
    rw [hrest, List.drop_drop]
    simp [Nat.add_comm]

theorem overwrite_head {xs : List UInt8} (h : Memory.overwrite buf i xs = some buf') (hi : 0 < i) :
    buf'[0]? = buf[0]? := by
  obtain ⟨hfits, heq⟩ := (by simpa [Memory.overwrite] using h :
    i + xs.length ≤ buf.length ∧ buf.take i ++ (xs ++ buf.drop (i + xs.length)) = buf')
  rw [← heq, List.getElem?_append_left (by rw [List.length_take]; omega),
    List.getElem?_take_of_lt hi]

theorem strncpy_head {src : Pointer} (h : strncpy a src n i buf = some buf') (hi : 0 < i) :
    buf'[0]? = buf[0]? := by
  induction n generalizing src i buf with
  | zero =>
    obtain rfl := Option.some.inj h
    rfl
  | succ n ih =>
    rw [strncpy] at h
    obtain ⟨c, -, h⟩ := Option.bind_eq_some_iff.mp h
    obtain ⟨mid, hmid, h⟩ := Option.bind_eq_some_iff.mp h
    have hfirst := overwrite_head hmid hi
    split at h
    · exact (overwrite_head h (Nat.succ_pos i)).trans hfirst
    · exact (ih h (Nat.succ_pos i)).trans hfirst

/-- A copy of buf onto itself leaves its first character. -/
theorem strncpy_self (h : strncpy a (.buf 0) n 0 buf = some buf') : buf'[0]? = buf[0]? := by
  cases n with
  | zero =>
    obtain rfl := Option.some.inj h
    rfl
  | succ n =>
    rw [strncpy] at h
    obtain ⟨c, hload, h⟩ := Option.bind_eq_some_iff.mp h
    obtain ⟨mid, hmid, h⟩ := Option.bind_eq_some_iff.mp h
    have hc : buf[0]? = some c := hload
    have hfirst : mid[0]? = buf[0]? := by
      obtain ⟨-, heq⟩ := (by simpa [Memory.overwrite] using hmid :
        1 ≤ buf.length ∧ c :: buf.tail = mid)
      rw [← heq, hc]
      rfl
    split at h
    · exact (overwrite_head h Nat.one_pos).trans hfirst
    · exact (strncpy_head h Nat.one_pos).trans hfirst

end Copying

section Name

variable {a : Arguments} {buf : Buffer}

theorem endOf_le (chars : List UInt8) : endOf chars ≤ chars.length := by
  have h := congrArg List.length (take_endOf chars)
  rw [List.length_take, ← endOf_eq] at h
  omega

theorem distance_func {i j : ℕ} (hle : i ≤ j) (hj : j ≤ a.chars.length) :
    a.distance (.func j) (.func i) = j - i := by
  have hfits := a.funcFits
  rw [Arguments.distance, Arguments.address, Arguments.address]
  omega

/-- The two blocks do not overlap, so that no place in func is less than a buffer's length from
the start of buf. -/
theorem distance_buf {j : ℕ} (hj : j ≤ a.chars.length) :
    MAX_FUNCTION_SIZE ≤ a.distance (.func j) (.buf 0) := by
  have hfunc := a.funcFits
  have hbuf := a.bufFits
  have hapart := a.apart
  simp only [Arguments.distance, Arguments.address, MAX_FUNCTION_SIZE] at *
  omega

/-- With a space before the parenthesis the name is copied out of func. -/
theorem simplify_function_copies (h : space ∈ declarator a.chars) :
    Holds (simplify_function buf (some a)) (shown a.chars) := by
  have hparts : declarator a.chars =
      beforeLast space (declarator a.chars) ++ space :: bareName a.chars := eq_append_of_mem h
  have hlength := congrArg List.length hparts
  rw [List.length_append, List.length_cons, ← endOf_eq] at hlength
  have hend := endOf_le a.chars
  have hsrc : bareName a.chars <+:
      a.chars.drop ((beforeLast space (declarator a.chars)).length + 1) := by
    have hdeclarator : bareName a.chars =
        (declarator a.chars).drop ((beforeLast space (declarator a.chars)).length + 1) := by
      conv_rhs => arg 2; rw [hparts]
      rw [List.append_cons, List.drop_left']
      simp
    rw [hdeclarator, ← take_endOf, List.drop_take]
    exact List.take_prefix _ _
  have hlen : a.distance (.func (endOf a.chars))
      (.func ((beforeLast space (declarator a.chars)).length + 1)) = (bareName a.chars).length := by
    rw [distance_func (by omega) hend]
    omega
  have hbuf := buf.property
  simp only [simplify_function, beginOf_of_mem h, hlen, shown]
  by_cases hshort : (bareName a.chars).length < MAX_FUNCTION_SIZE
  · have hcopy := strncpy_func [] buf.val hsrc (by omega)
    have hnul : Memory.overwrite (bareName a.chars ++ buf.val.drop (bareName a.chars).length)
        (bareName a.chars).length [0] = some _ :=
      overwrite_append (bareName a.chars) (by simp; omega)
    rw [if_neg (not_le.mpr hshort), if_pos hshort]
    simp only [List.nil_append, List.length_nil] at hcopy
    simp only [hcopy, hnul, Option.bind_eq_bind, Option.bind_some, Option.pure_def]
    exact ⟨_, rfl, List.prefix_append _ _⟩
  · rw [if_pos (not_lt.mp hshort), if_neg hshort]
    have hcut : ((bareName a.chars).take (MAX_FUNCTION_SIZE - 4)).length =
        MAX_FUNCTION_SIZE - 4 := by
      rw [List.length_take]
      omega
    have hcopy := strncpy_func [] buf.val
      ((List.take_prefix (MAX_FUNCTION_SIZE - 4) _).trans hsrc) (by omega)
    have hroom : (dots ++ [0]).length ≤ (buf.val.drop (MAX_FUNCTION_SIZE - 4)).length := by
      simp [hbuf, MAX_FUNCTION_SIZE, dots]
    have hdots := overwrite_append ((bareName a.chars).take (MAX_FUNCTION_SIZE - 4)) hroom
    rw [hcut] at hcopy hdots
    simp only [List.nil_append, List.length_nil] at hcopy
    simp only [hcopy, hdots, Option.bind_eq_bind, Option.bind_some, Option.pure_def]
    refine ⟨_, rfl, ?_⟩
    rw [List.append_assoc _ dots]
    exact List.prefix_append _ _

/-- Without one the first character of buf stays as it is. -/
theorem simplify_function_keeps (h : space ∉ declarator a.chars) {chars : List UInt8}
    (hholds : Holds (simplify_function buf (some a)) chars) :
    buf.val[0]? = (chars ++ [0])[0]? := by
  obtain ⟨buf', heq, hprefix⟩ := hholds
  have hfirst : buf'[0]? = (chars ++ [0])[0]? := by
    obtain ⟨rest, rfl⟩ := hprefix
    rw [List.getElem?_append_left (by simp)]
  have hlong := distance_buf (a := a) (endOf_le a.chars)
  simp only [simplify_function, beginOf_of_not_mem h, if_pos hlong] at heq
  obtain ⟨mid, hcopy, heq⟩ := Option.bind_eq_some_iff.mp heq
  obtain ⟨last, hdots, heq⟩ := Option.bind_eq_some_iff.mp heq
  cases heq
  rw [← hfirst, overwrite_head hdots (by decide), strncpy_self hcopy]

/-- The bare name is shown for a string that has a space before its last parenthesis, and for no
other, whatever the buffer held before. -/
theorem simplify_function_iff (a : Arguments) :
    (∀ buf, Holds (simplify_function buf (some a)) (shown a.chars)) ↔
      space ∈ declarator a.chars := by
  refine ⟨fun h => ?_, fun h buf => simplify_function_copies h⟩
  by_contra hnot
  have hshort : 0 < (shown a.chars ++ [0]).length := by simp
  obtain ⟨other, hother⟩ : ∃ other : UInt8, other ≠ (shown a.chars ++ [0])[0] := by
    by_cases hzero : (shown a.chars ++ [0])[0] = 0
    · exact ⟨1, by rw [hzero]; decide⟩
    · exact ⟨0, Ne.symm hzero⟩
  have hkeeps := simplify_function_keeps hnot
    (h ⟨List.replicate MAX_FUNCTION_SIZE other, List.length_replicate⟩)
  have hfirst : (List.replicate MAX_FUNCTION_SIZE other)[0]? = some other := rfl
  rw [hfirst, List.getElem?_eq_getElem hshort] at hkeeps
  exact hother (Option.some.inj hkeeps)

/-- The name of a constructor, "A::A()", as the compiler writes it. -/
def constructorName : Arguments where
  chars := [65, 58, 58, 65, 40, 41]
  noNul := by decide
  func := 4096
  buf := 8192
  funcFits := by decide
  bufFits := by decide
  apart := by decide

/-- Nothing is shown for it in a buffer of NULs. -/
theorem constructorName_not_shown :
    ¬Holds (simplify_function ⟨List.replicate MAX_FUNCTION_SIZE 0, List.length_replicate⟩
      (some constructorName)) (shown constructorName.chars) := by
  intro h
  have hnot : space ∉ declarator constructorName.chars := by decide
  have hkeeps := simplify_function_keeps hnot h
  have hshown : (shown constructorName.chars ++ [0])[0]? = some 65 := by decide
  rw [hshown] at hkeeps
  cases hkeeps

end Name

end CWrapper.SimplifyFunction
