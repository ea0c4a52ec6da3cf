import TaggedUnion.Proofs.Json.Compact
import TaggedUnion.Proofs.Json.Number
import TaggedUnion.Proofs.Literal.Adjacency
import TaggedUnion.Proofs.Literal.Glyph

/-!
# Numbers in both modes

A text that is a number can be a literal and JSON. The built-in scalars judge both, the literal by
its spelling and the runtime value by what has been read from it.

* `Builtin.TakesLiteral`, `Builtin.TakesText`: a scalar takes a text as a literal and as JSON.
* `numeral?_eq_some_iff_read`, `numeral?_isSome_iff_token`: the texts that are numbers.
* `takes_number`: where both modes decide alike.
* `takes_apart`: where they do not.
-/

namespace TaggedUnion

/-! ## The number in both modes -/

section Modes

variable {text : String} {n : Numeral}

theorem Numeral.follows_nil : Follows [] := nofun

theorem Builtin.numeral?_eq_some_iff :
    Builtin.numeral? text = some n ↔ n.IsProper ∧ String.ofList n.text = text := by
  have hscan : Builtin.numeral? text = some n ↔ Numeral.scan text.toList = some (n, []) := by
    unfold Builtin.numeral?
    split <;> simp_all
  rw [hscan, Numeral.scan_eq_some_iff, List.append_nil, ← String.toList_inj, String.toList_ofList]
  constructor
  · rintro ⟨hn, htext, -⟩
    exact ⟨hn, htext⟩
  · rintro ⟨hn, htext⟩
    exact ⟨hn, htext, Numeral.follows_nil.ends⟩

/-- The numerals are the numbers in JSON text. -/
theorem Builtin.numeral?_eq_some_iff_read :
    Builtin.numeral? text = some n ↔ Json.readNumeral text.toList = .ok (n, []) := by
  unfold Builtin.numeral? Json.readNumeral
  cases hscan : Numeral.scan text.toList with
  | none => simp
  | some scanned =>
    obtain ⟨m, rest⟩ := scanned
    cases rest with
    | nil => simp [Json.numeralFault?]
    | cons c rest =>
      simp only [reduceCtorEq, false_iff]
      split <;> simp

/-- The numerals are the texts that are a single number token. -/
theorem Builtin.numeral?_isSome_iff_token : (Builtin.numeral? text).isSome ↔
    ∃ lexeme : Literal.Lexeme, (lexeme.kind = .int ∨ lexeme.kind = .float) ∧
      lexeme.text = text.toList ∧ Literal.tokenize text = .ok [lexeme.token 0] := by
  constructor
  · intro h
    obtain ⟨n, hnumeral⟩ := Option.isSome_iff_exists.mp h
    obtain ⟨hn, rfl⟩ := numeral?_eq_some_iff.mp hnumeral
    have htoken := Literal.tokenize_lexeme (Literal.scans_numeral hn Numeral.follows_nil.ends)
    refine ⟨Literal.numberLexeme n, ?_, ?_, htoken⟩
    · cases hint : n.isInteger <;> simp [Literal.numberLexeme, hint]
    · rw [String.toList_ofList]
      rfl
  · rintro ⟨lexeme, hkind, htext, htoken⟩
    have hspan : (lexeme.token 0).span = ⟨0, Text.byteSize text.toList⟩ := by
      simp [Literal.Lexeme.token, htext]
    obtain ⟨c, behind, -, -, hscan⟩ :=
      (Literal.tokenizeFrom_eq_ok_iff.mp htoken).scan_of_whole hspan
    obtain ⟨n, hn, hlexeme, -⟩ := (Literal.scanned_of_scan hscan).exists_numeral hkind
    have hnumeral : n.text = text.toList := by
      rw [← htext]
      exact (Literal.Lexeme.mk.inj hlexeme).2.symm
    refine Option.isSome_iff_exists.mpr ⟨n, numeral?_eq_some_iff.mpr ⟨hn, ?_⟩⟩
    rw [hnumeral, String.ofList_toList]

/-- As a literal, a number keeps its spelling, and its token says whether it is an integer. -/
theorem Literal.parse_numeral (h : Builtin.numeral? text = some n) :
    Literal.parse text =
      .ok ⟨if n.isInteger then .int text else .float text, ⟨0, Text.byteSize text.toList⟩⟩ := by
  obtain ⟨hn, rfl⟩ := Builtin.numeral?_eq_some_iff.mp h
  have hscans := Literal.scans_numeral hn Numeral.follows_nil.ends
  have hsays : Literal.Says (Literal.Lexeme.token ⟨if n.isInteger then .int else .float, n.text⟩ 0)
      (if n.isInteger then .int (String.ofList n.text) else .float (String.ofList n.text)) := by
    split
    · exact .int
    · exact .float
  have hparse := Literal.parse_lexeme hscans hsays
  rwa [String.toList_ofList]

/-- In JSON, a number is read as what it stands for. -/
theorem Json.parse_numeral {number : Number} (h : Builtin.numeral? text = some n)
    (hnumber : Number.ofNumeral? n = some number) : Json.parse text = .ok (.number number) := by
  obtain ⟨hn, rfl⟩ := Builtin.numeral?_eq_some_iff.mp h
  obtain ⟨c, cs, htext, hstart⟩ := hn.text_eq_cons
  obtain ⟨hblank, -, hbracket⟩ := Json.not_blank_of_start hstart
  have hread := Json.readScalar_number hn hnumber htext hstart Numeral.follows_nil
  rw [List.append_nil] at hread
  have hrun : Json.readValue 0 (c :: cs) = .ok (.number number, []) :=
    (Json.run_scalar hblank hbracket hread).trans Json.run_done
  rw [Json.parse, Json.readWhole, String.toList_ofList, htext, hrun]
  rfl

/-- A number that is too large is refused. -/
theorem Json.parse_numeral_none (h : Builtin.numeral? text = some n)
    (hnumber : Number.ofNumeral? n = none) : ∃ fault, Json.parse text = .error fault := by
  obtain ⟨hn, rfl⟩ := Builtin.numeral?_eq_some_iff.mp h
  obtain ⟨c, cs, htext, hstart⟩ := hn.text_eq_cons
  obtain ⟨hblank, -, hbracket⟩ := Json.not_blank_of_start hstart
  have hscan := Numeral.scan_text_append hn Numeral.follows_nil
  rw [List.append_nil, htext] at hscan
  obtain ⟨fault, hread⟩ : ∃ fault, Json.readNumber (c :: cs) = .error fault := by
    cases hread : Json.readNumber (c :: cs) with
    | error fault => exact ⟨fault, rfl⟩
    | ok => simp [Json.readNumber, Json.readNumeral, hscan, Json.numeralFault?, hnumber] at hread
  have hscalar : Json.readScalar c cs = .error fault := by
    rw [Json.readScalar_of_start hstart, hread]
    rfl
  have hrun : Json.readValue 0 (c :: cs) = .error (fault.under (Json.framePath [])) := by
    refine Json.run_error ?_
    simp only [Json.step, Json.stepValue, Json.skipBlanks_cons hblank, if_neg hbracket, hscalar]
  refine ⟨fault.under (Json.framePath []), ?_⟩
  rw [Json.parse, Json.readWhole, String.toList_ofList, htext, hrun]
  rfl

end Modes

/-! ## What the scalars take -/

namespace Builtin

/-- The scalar takes what a source is as a literal. -/
def TakesLiteral (scalar : Builtin) (source : Source) : Prop :=
  ∃ node value, Literal.parse source.body = .ok node ∧ scalar.parseLiteral source node = .ok value

/-- The scalar takes what a text is as JSON. -/
def TakesText (scalar : Builtin) (text : String) : Prop :=
  ∃ read value, Json.parse text = .ok read ∧ scalar.parseValue read = .ok value

section Takes

variable {scalar : Builtin} {source : Source} {text : String} {n : Numeral}

theorem takesLiteral_iff (h : numeral? source.body = some n) : scalar.TakesLiteral source ↔
    ∃ value, scalar.parseLiteral source
      ⟨if n.isInteger then .int source.body else .float source.body,
        ⟨0, Text.byteSize source.body.toList⟩⟩ = .ok value := by
  simp only [TakesLiteral, Literal.parse_numeral h, Except.ok.injEq, exists_and_left,
    exists_eq_left']

theorem takesText_iff (h : numeral? text = some n) : scalar.TakesText text ↔
    ∃ number, Number.ofNumeral? n = some number ∧
      ∃ value, scalar.parseValue (.number number) = .ok value := by
  cases hnumber : Number.ofNumeral? n with
  | none =>
    obtain ⟨fault, hfault⟩ := Json.parse_numeral_none h hnumber
    simp [TakesText, hfault]
  | some number =>
    simp [TakesText, Json.parse_numeral h hnumber]

/-- `Int` takes the spelling of an integer of 32 bits. -/
theorem int_takesLiteral_iff (h : numeral? source.body = some n) :
    int.TakesLiteral source ↔ n.isInteger ∧ isInt32 n.wholeValue := by
  rw [takesLiteral_iff h]
  cases hint : n.isInteger with
  | true =>
    have hfilter : (numeral? source.body).filter Numeral.isInteger = some n := by
      rw [h, Option.filter_some_pos hint]
    cases hfits : isInt32 n.wholeValue <;> simp [parseLiteral, intOfSpelling, hfilter, hfits]
  | false => simp [parseLiteral]

/-- `Int` takes a value that equals an integer of 32 bits. -/
theorem int_takesText_iff (h : numeral? text = some n) : int.TakesText text ↔
    ∃ number, Number.ofNumeral? n = some number ∧ (int32? number).isSome := by
  rw [takesText_iff h]
  refine exists_congr fun number => and_congr_right fun _ => ?_
  cases hint : int32? number <;> cases number <;> simp [parseValue, intOfNumber, hint]

/-- `Float` takes the spelling of a number that has a nearest double. -/
theorem float_takesLiteral_iff (h : numeral? source.body = some n) :
    float.TakesLiteral source ↔ n.nearest?.isSome := by
  rw [takesLiteral_iff h]
  cases n.isInteger <;> cases hnearest : n.nearest? <;>
    simp [parseLiteral, floatOfSpelling, h, hnearest]

/-- `Float` takes every number that is read. -/
theorem float_takesText_iff (h : numeral? text = some n) :
    float.TakesText text ↔ (Number.ofNumeral? n).isSome := by
  rw [takesText_iff h, Option.isSome_iff_exists]
  exact exists_congr fun number => and_iff_left ⟨_, rfl⟩

/-- `ID` takes the spelling of any integer. -/
theorem id_takesLiteral_iff (h : numeral? source.body = some n) :
    id.TakesLiteral source ↔ n.isInteger := by
  rw [takesLiteral_iff h]
  cases n.isInteger <;> simp [parseLiteral]

/-- `ID` takes a value that is kept as an integer. -/
theorem id_takesText_iff (h : numeral? text = some n) : id.TakesText text ↔ n.IsWord := by
  rw [takesText_iff h]
  constructor
  · rintro ⟨number, hnumber, value, hvalue⟩
    cases number with
    | integer i => exact (Number.ofNumeral?_eq_integer_iff.mp hnumber).1
    | double x => cases hvalue
  · intro hword
    exact ⟨_, Number.ofNumeral?_of_isWord hword, _, rfl⟩

/-- **Numbers in both modes.** `String` and `Boolean` take no number. `Int` takes the same integers,
and takes a number with a point or an exponent only as a value. `ID` takes the same integers of 64
bits, and takes a negative zero and longer integers only as a literal. `Float` takes the same
numbers, apart from those that are about as large as the greatest double. -/
theorem takes_number (h : numeral? source.body = some n) :
    (∀ scalar, scalar = .string ∨ scalar = .boolean →
        ¬TakesLiteral scalar source ∧ ¬TakesText scalar source.body) ∧
      (int.TakesLiteral source ↔ n.isInteger ∧ int.TakesText source.body) ∧
      (id.TakesText source.body ↔ n.IsWord ∧ id.TakesLiteral source) ∧
      (Binary64.margin ≤ |n.magnitude - Binary64.overflow| →
        (float.TakesLiteral source ↔ float.TakesText source.body)) := by
  obtain ⟨hn, -⟩ := numeral?_eq_some_iff.mp h
  refine ⟨?_, ?_, ?_, fun hclear => ?_⟩
  · rintro scalar (rfl | rfl) <;> rw [takesLiteral_iff h, takesText_iff h] <;>
      cases n.isInteger <;> simp [parseLiteral, parseValue]
  · rw [int_takesLiteral_iff h, int_takesText_iff h]
    exact and_congr_right fun hint => (Number.int32?_ofNumeral? hn hint).symm
  · rw [id_takesText_iff h, id_takesLiteral_iff h]
    exact ⟨fun hword => ⟨hword, hword.isInteger⟩, And.left⟩
  · rw [float_takesLiteral_iff h, float_takesText_iff h, Number.ofNumeral?_isSome_iff hn hclear,
      Option.isSome_iff_ne_none, Ne, Numeral.nearest?_eq_none_iff, not_le]

end Takes

/-- A small integer is clear of all exceptions. -/
theorem takes_number_small :
    (int.TakesLiteral ⟨"", "-12"⟩ ↔ int.TakesText "-12") ∧
      (id.TakesLiteral ⟨"", "-12"⟩ ↔ id.TakesText "-12") ∧
      (float.TakesLiteral ⟨"", "-12"⟩ ↔ float.TakesText "-12") := by
  have hnumeral : numeral? (Source.mk "" "-12").body = some ⟨true, ['1', '2'], [], none⟩ := by
    decide
  have hclear : Binary64.margin ≤
      |Numeral.magnitude ⟨true, ['1', '2'], [], none⟩ - Binary64.overflow| := by
    have hmagnitude : Numeral.magnitude ⟨true, ['1', '2'], [], none⟩ = 12 := by
      rw [Number.magnitude_of_isInteger rfl]
      rfl
    have hunit : (1 : ℚ) ≤ 2 ^ 970 := one_le_pow₀ one_le_two
    refine le_abs'.mpr (.inl ?_)
    rw [hmagnitude, Binary64.overflow_eq_mul, Binary64.margin]
    generalize (2 : ℚ) ^ 970 = unit at hunit ⊢
    linarith
  obtain ⟨-, hint, hid, hfloat⟩ := takes_number hnumeral
  have hword : Numeral.IsWord ⟨true, ['1', '2'], [], none⟩ :=
    ⟨rfl, by decide, by decide, by decide⟩
  exact ⟨hint.trans (and_iff_right rfl), (hid.trans (and_iff_right hword)).symm, hfloat hclear⟩

/-- Each of the exceptions occurs. An integer may be written with a point in a value only, and may
be a negative zero in a literal only. About where the doubles end, the two ways to round a number
may fall on either side. -/
theorem takes_apart :
    ((numeral? "1.0").isSome ∧ ¬int.TakesLiteral ⟨"", "1.0"⟩ ∧ int.TakesText "1.0") ∧
      ((numeral? "-0").isSome ∧ id.TakesLiteral ⟨"", "-0"⟩ ∧ ¬id.TakesText "-0") ∧
      ((numeral? "17976931348623158e292").isSome ∧
        float.TakesLiteral ⟨"", "17976931348623158e292"⟩ ∧
        ¬float.TakesText "17976931348623158e292") := by
  have hone : numeral? "1.0" = some ⟨false, ['1'], ['0'], none⟩ := by decide
  have hzero : numeral? "-0" = some ⟨true, ['0'], [], none⟩ := by decide
  have hlarge : numeral? "17976931348623158e292" =
      some ⟨false, ['1', '7', '9', '7', '6', '9', '3', '1', '3', '4', '8', '6', '2', '3', '1', '5',
        '8'], [], some ⟨'e', none, ['2', '9', '2']⟩⟩ := by decide +kernel
  refine ⟨⟨?_, ?_, ?_⟩, ⟨?_, ?_, ?_⟩, ⟨?_, ?_, ?_⟩⟩
  · rw [hone]
    rfl
  · exact mt (int_takesLiteral_iff hone).mp (by decide)
  · exact (int_takesText_iff hone).mpr ⟨.double ⟨false, 2 ^ 52, -52⟩, by decide +kernel, by decide⟩
  · rw [hzero]
    rfl
  · exact (id_takesLiteral_iff hzero).mpr rfl
  · exact mt (id_takesText_iff hzero).mp fun h => h.nonzero rfl rfl
  · rw [hlarge]
    rfl
  · exact (float_takesLiteral_iff hlarge).mpr (by decide +kernel)
  · exact mt (float_takesText_iff hlarge).mp (by decide +kernel)

end Builtin

end TaggedUnion
