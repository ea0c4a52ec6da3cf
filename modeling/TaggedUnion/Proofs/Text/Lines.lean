import Mathlib.Data.List.DropRight
import Mathlib.Data.Prod.Lex
import Mathlib.Order.Interval.Set.Defs
import TaggedUnion.Proofs.Text.Bytes

/-!
# Lines and columns

Line and column of a position are told from the bytes of the text, so a position inside a character
has them too.

* `Source.bytes`: the UTF-8 form of a text.
* `lineStarts_eq`: lines start behind the bytes that are newlines, and behind no others.
* `lineCol_eq`: a place as two counts over the bytes in front of a position.
* `StartsLine`, `IsPlace`: where a line starts, and which line and column an offset has.
* `lineCol_faithful`: the places of a text are coordinates for its positions.
-/

namespace TaggedUnion

/-- The byte that ends a line. -/
def newline : UInt8 := 10

/-! ## Newlines among bytes -/

namespace Text

/-- All bytes of a longer character are greater than that of a newline. -/
theorem newline_mem_utf8EncodeChar_iff {c : Char} :
    newline ∈ String.utf8EncodeChar c ↔ c = '\n' := by
  have hchar : c = '\n' ↔ c.val.toNat = 10 := by
    rw [Char.ext_iff, ← UInt32.toNat_inj]
    rfl
  have hbyte : ∀ n, newline = UInt8.ofNat n ↔ n % 256 = 10 := by
    intro n
    rw [eq_comm, ← UInt8.toNat_inj, UInt8.toNat_ofNat']
    rfl
  rw [hchar]
  unfold String.utf8EncodeChar
  simp only []
  split_ifs <;> simp only [List.mem_cons, List.not_mem_nil, or_false, hbyte] <;> omega

theorem length_flatMap_utf8EncodeChar (cs : List Char) :
    (cs.flatMap String.utf8EncodeChar).length = byteSize cs := by
  induction cs with
  | nil => rfl
  | cons c cs ih =>
    rw [List.flatMap_cons, List.length_append, String.length_utf8EncodeChar, ih, byteSize_cons]

/-- Lines start behind the newlines among the bytes. -/
theorem lineStarts_eq (position : Nat) (cs : List Char) : lineStarts position cs =
    (cs.flatMap String.utf8EncodeChar).findIdxs (· == newline) (position + 1) := by
  induction cs generalizing position with
  | nil => rfl
  | cons c cs ih =>
    rw [List.flatMap_cons, List.findIdxs_append, String.length_utf8EncodeChar, lineStarts]
    simp only [ih, Nat.add_right_comm]
    split
    · rename_i hc
      subst hc
      rfl
    · rename_i hc
      have hnone : (String.utf8EncodeChar c).findIdxs (· == newline) (position + 1) = [] := by
        refine List.findIdxs_eq_nil_iff.mpr fun b hb => beq_eq_false_iff_ne.mpr ?_
        rintro rfl
        exact hc (newline_mem_utf8EncodeChar_iff.mp hb)
      rw [hnone, List.nil_append]

end Text

/-- The lines that start up to a position start behind newlines in front of it. -/
theorem filter_findIdxs_le (bytes : List UInt8) (position : Nat) :
    (bytes.findIdxs (· == newline) 1).filter (· ≤ position) =
      (bytes.take position).findIdxs (· == newline) 1 := by
  have hlength : (bytes.take position).length ≤ position := List.length_take_le _ _
  have hfront : ∀ start ∈ (bytes.take position).findIdxs (· == newline) 1, start ≤ position := by
    intro start hstart
    have := List.lt_add_of_mem_findIdxs start hstart
    omega
  have hbehind : ∀ start ∈ (bytes.drop position).findIdxs (· == newline)
      (1 + (bytes.take position).length), ¬start ≤ position := by
    intro start hstart
    have hge := List.ge_of_mem_findIdxs start hstart
    have hlt := List.lt_add_of_mem_findIdxs start hstart
    rw [List.length_drop, List.length_take] at hlt
    rw [List.length_take] at hge
    omega
  conv_lhs => rw [← List.take_append_drop position bytes]
  rw [List.findIdxs_append, List.filter_append, List.filter_eq_self.mpr (by simpa using hfront),
    List.filter_eq_nil_iff.mpr (by simpa using hbehind), List.append_nil]

/-- The last line starts where the bytes behind the last newline do. -/
theorem getLast?_findIdxs (bytes : List UInt8) :
    (bytes.findIdxs (· == newline) 1).getLast?.getD 0 =
      (bytes.rdropWhile (· != newline)).length := by
  induction bytes using List.reverseRecOn with
  | nil => rfl
  | append_singleton bytes b ih =>
    rw [List.findIdxs_append]
    by_cases hb : b = newline
    · rw [List.rdropWhile_concat_neg _ _ _ (by simp [hb])]
      simp [hb, Nat.add_comm]
    · rw [List.rdropWhile_concat_pos _ _ _ (by simp [hb])]
      simpa [hb] using ih

/-! ## Places -/

namespace Source

/-- The UTF-8 form of the text. -/
def bytes (source : Source) : List UInt8 := source.body.toUTF8.data.toList

theorem bytes_eq (source : Source) :
    source.bytes = source.body.toList.flatMap String.utf8EncodeChar := by
  conv_lhs => rw [bytes, ← String.ofList_toList (s := source.body)]
  rw [String.toUTF8_eq_toByteArray, String.toByteArray_ofList, List.utf8Encode,
    List.toList_data_toByteArray]

/-- The line counts the newlines in front of a position, and the column the bytes behind the last of
them. -/
theorem lineCol_eq (source : Source) (position : Nat) : source.lineCol position =
    ((source.bytes.take position).count newline + 1,
      ((source.bytes.take position).rtakeWhile (· != newline)).length + 1) := by
  have hsize : Text.byteSize source.body.toList = source.bytes.length := by
    rw [bytes_eq, Text.length_flatMap_utf8EncodeChar]
  -- The last line starts behind what is dropped from the right, so the column counts what is taken.
  have hsplit := congrArg List.length
    (List.rdropWhile_append_rtakeWhile (p := (· != newline)) (l := source.bytes.take position))
  rw [List.length_append, List.length_take] at hsplit
  simp only [lineCol, Text.lineStarts_eq, ← bytes_eq, hsize, Nat.zero_add, filter_findIdxs_le,
    ← List.take_eq_take_min, getLast?_findIdxs, List.length_findIdxs, Prod.mk.injEq]
  exact ⟨rfl, by omega⟩

end Source

/-- A line starts at the first byte, or behind a newline, and is numbered by the newlines in front
of it. -/
structure StartsLine (bytes : List UInt8) (line start : Nat) : Prop where
  line_eq : line = (bytes.take start).count newline + 1
  behind : start = 0 ∨ bytes[start - 1]? = some newline

/-- The line and the column of an offset. The line is one more than the newlines in front of the
offset, and the column one more than the bytes from the start of that line, none of which is a
newline. -/
structure IsPlace (bytes : List UInt8) (offset line column : Nat) : Prop where
  line_eq : line = (bytes.take offset).count newline + 1
  one_le_column : 1 ≤ column
  exists_start : ∃ start, StartsLine bytes line start ∧ start ≤ offset ∧
    start + (column - 1) = offset ∧ newline ∉ (bytes.take offset).drop start

section Places

variable {bytes : List UInt8} {offset offset' line column line' column' start start' : Nat}

theorem count_take_mono (h : offset ≤ offset') :
    (bytes.take offset).count newline ≤ (bytes.take offset').count newline :=
  (List.take_sublist_take_left h).count_le newline

/-- A line that starts later has a greater number. -/
theorem StartsLine.lt (h : StartsLine bytes line start) (h' : StartsLine bytes line' start')
    (hlt : start < start') : line < line' := by
  cases start' with
  | zero => exact absurd hlt (Nat.not_lt_zero start)
  | succ last =>
    have hnewline : bytes[last]? = some newline := by simpa using h'.behind
    -- The newline at the end of the line before is not in front of the earlier start.
    have hmono : (bytes.take start).count newline ≤ (bytes.take last).count newline :=
      count_take_mono (Nat.lt_succ_iff.mp hlt)
    rw [h.line_eq, h'.line_eq, List.take_add_one, hnewline, List.count_append]
    simp only [Option.toList_some, List.count_singleton_self]
    omega

/-- A line has one start. -/
theorem StartsLine.unique (h : StartsLine bytes line start) (h' : StartsLine bytes line start') :
    start = start' := by
  rcases Nat.lt_trichotomy start start' with hlt | heq | hgt
  · exact absurd (h.lt h' hlt) (Nat.lt_irrefl line)
  · exact heq
  · exact absurd (h'.lt h hgt) (Nat.lt_irrefl line)

/-- An offset has one place. -/
theorem IsPlace.unique (h : IsPlace bytes offset line column)
    (h' : IsPlace bytes offset line' column') : line = line' ∧ column = column' := by
  obtain rfl : line = line' := h.line_eq.trans h'.line_eq.symm
  obtain ⟨start, hstarts, -, hcolumn, -⟩ := h.exists_start
  obtain ⟨start', hstarts', -, hcolumn', -⟩ := h'.exists_start
  obtain rfl := hstarts.unique hstarts'
  have hone := h.one_le_column
  have hone' := h'.one_le_column
  exact ⟨rfl, by omega⟩

/-- Of two offsets the earlier one is on an earlier line, or on the same line in an earlier
column. -/
theorem IsPlace.lt (h : IsPlace bytes offset line column)
    (h' : IsPlace bytes offset' line' column') (hlt : offset < offset') :
    toLex (line, column) < toLex (line', column') := by
  have hle : line ≤ line' := by
    have hcount : (bytes.take offset).count newline ≤ (bytes.take offset').count newline :=
      count_take_mono hlt.le
    rw [h.line_eq, h'.line_eq]
    omega
  refine Prod.Lex.toLex_lt_toLex.mpr (hle.lt_or_eq.imp_right fun heq => ⟨heq, ?_⟩)
  subst heq
  obtain ⟨start, hstarts, -, hcolumn, -⟩ := h.exists_start
  obtain ⟨start', hstarts', -, hcolumn', -⟩ := h'.exists_start
  obtain rfl := hstarts.unique hstarts'
  have hone := h.one_le_column
  show column < column'
  omega

/-- A line starts behind a newline. -/
theorem startsLine_append {front rest : List UInt8} (hlast : ∀ b ∈ front.getLast?, b = newline) :
    StartsLine (front ++ rest) (front.count newline + 1) front.length := by
  refine ⟨by rw [List.take_left], ?_⟩
  rcases List.eq_nil_or_concat front with rfl | ⟨others, b, rfl⟩
  · exact .inl rfl
  · obtain rfl : b = newline := hlast b (by simp)
    exact .inr (by simp)

/-- Bytes without a newline in front of an offset are on its line. -/
theorem isPlace_append {front rest : List UInt8} (behind : List UInt8)
    (hlast : ∀ b ∈ front.getLast?, b = newline) (hrest : newline ∉ rest) :
    IsPlace (front ++ (rest ++ behind)) (front.length + rest.length)
      (front.count newline + 1) (rest.length + 1) := by
  have htake : (front ++ (rest ++ behind)).take (front.length + rest.length) = front ++ rest := by
    rw [← List.append_assoc, ← List.length_append, List.take_left]
  refine ⟨?_, by omega, front.length, startsLine_append hlast, by omega, by omega, ?_⟩
  · rw [htake, List.count_append, List.count_eq_zero.mpr hrest, Nat.add_zero]
  · rwa [htake, List.drop_left]

/-- The bytes in front of an offset are cut behind the last newline among them. -/
theorem isPlace_count (hoffset : offset ≤ bytes.length) :
    IsPlace bytes offset ((bytes.take offset).count newline + 1)
      (((bytes.take offset).rtakeWhile (· != newline)).length + 1) := by
  have hlast : ∀ b ∈ ((bytes.take offset).rdropWhile (· != newline)).getLast?, b = newline := by
    intro b hb
    obtain ⟨hne, rfl⟩ := List.mem_getLast?_eq_getLast hb
    simpa using List.rdropWhile_last_not (· != newline) (bytes.take offset) hne
  have hrest : newline ∉ (bytes.take offset).rtakeWhile (· != newline) := fun hmem => by
    simpa using List.mem_rtakeWhile_imp hmem
  have hplace := isPlace_append (bytes.drop offset) hlast hrest
  have hcut := List.rdropWhile_append_rtakeWhile (p := (· != newline)) (l := bytes.take offset)
  have hcount : ((bytes.take offset).rdropWhile (· != newline)).count newline =
      (bytes.take offset).count newline := by
    conv_rhs => rw [← hcut]
    rw [List.count_append, List.count_eq_zero.mpr hrest, Nat.add_zero]
  rwa [← List.append_assoc, ← List.length_append, hcut, List.take_append_drop, List.length_take,
    Nat.min_eq_left hoffset, hcount] at hplace

end Places

namespace Source

/-- **The places of a text are coordinates.** A position past the end counts as the end. The line of
a position is numbered by the newlines in front of it, and its column is one more than the bytes
from the start of that line. Up to the end of the text, later positions have later places, so no two
of them share one. -/
theorem lineCol_faithful (source : Source) :
    (∀ position line column, source.lineCol position = (line, column) ↔
      IsPlace source.bytes (min position source.bytes.length) line column) ∧
    StrictMonoOn (fun position => toLex (source.lineCol position))
      (Set.Iic source.bytes.length) ∧
    Set.InjOn source.lineCol (Set.Iic source.bytes.length) := by
  have hplace : ∀ position, IsPlace source.bytes (min position source.bytes.length)
      (source.lineCol position).1 (source.lineCol position).2 := by
    intro position
    rw [lineCol_eq, List.take_eq_take_min]
    exact isPlace_count (Nat.min_le_right _ _)
  have hmono : StrictMonoOn (fun position => toLex (source.lineCol position))
      (Set.Iic source.bytes.length) := by
    intro position hposition position' hposition' hlt
    have hearlier := hplace position
    have hlater := hplace position'
    rw [Nat.min_eq_left hposition] at hearlier
    rw [Nat.min_eq_left hposition'] at hlater
    exact hearlier.lt hlater hlt
  refine ⟨fun position line column => ⟨?_, fun h => ?_⟩, hmono, ?_⟩
  · rintro heq
    simpa [heq] using hplace position
  · obtain ⟨hline, hcolumn⟩ := (hplace position).unique h
    exact Prod.ext hline hcolumn
  · exact fun _ hposition _ hposition' heq =>
      hmono.injOn hposition hposition' (congrArg toLex heq)

/-- Inside the first character, on a newline, on an empty line, at the end and past it. -/
example : [1, 2, 3, 5, 9].map (Source.mk "" "é\n\nx").lineCol =
    [(1, 2), (1, 3), (2, 1), (3, 2), (3, 2)] := by
  decide

end Source

end TaggedUnion
