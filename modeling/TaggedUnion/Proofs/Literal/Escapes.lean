import TaggedUnion.Literal.Quoted
import TaggedUnion.Outcome
import TaggedUnion.Proofs.Text.Bytes

/-!
# How strings are spelled

What stands between the quotes of a string, as a relation to its contents, and what decoding does
with it.

* `Escapes`, `Spells`: the spellings of one character behind a backslash, and of a whole string.
* `Blocked`: a backslash with nothing behind it that completes an escape.
* `decode_eq_ok_iff`: decoding gives the contents that are spelled.
* `decode_eq_error_iff`: where it stops otherwise.
* `badEscape_eq_abort_iff`: a bad escape cannot be quoted if the quotation ends inside a character.
-/

namespace TaggedUnion.Literal

/-- The ways to write a character with a backslash. -/
inductive Escapes : List Char → Char → Prop where
  | letter {letter c : Char} (h : Text.simpleEscape? letter = some c) : Escapes ['\\', letter] c
  /-- Four hexadecimal digits give the code of the character. -/
  | code {w x y z : Char} {i j k l : Nat} {c : Char} (hw : Text.hexValue? w = some i)
    (hx : Text.hexValue? x = some j) (hy : Text.hexValue? y = some k)
    (hz : Text.hexValue? z = some l) (hc : c.toNat = ((i * 16 + j) * 16 + k) * 16 + l) :
    Escapes ['\\', 'u', w, x, y, z] c

/-- The texts that spell given contents: character by character, as it is or with a backslash. -/
inductive Spells : List Char → List Char → Prop where
  | nil : Spells [] []
  | plain {c : Char} {text contents : List Char} (hc : c ≠ '\\') (h : Spells text contents) :
    Spells (c :: text) (c :: contents)
  | escape {sequence : List Char} {c : Char} {text contents : List Char}
    (hc : Escapes sequence c) (h : Spells text contents) :
    Spells (sequence ++ text) (c :: contents)

/-- What stands behind a backslash completes no escape. -/
def Blocked (behind : List Char) : Prop :=
  ∀ sequence c, Escapes sequence c → ¬sequence <+: '\\' :: behind

/-- How many bytes of a bad escape are quoted, unless the string ends before. -/
def quotedSize : List Char → Nat
  | [] => 1
  | letter :: _ => if letter = 'u' then 6 else 2

/-! ## Escapes -/

theorem charOfCode?_eq_some_iff {n : Nat} {c : Char} :
    Text.charOfCode? n = some c ↔ c.toNat = n := by
  unfold Text.charOfCode?
  by_cases h : n.isValidChar
  · have hn : (Char.ofNatAux n h).toNat = n := rfl
    rw [dif_pos h, Option.some.injEq]
    constructor
    · rintro rfl
      exact hn
    · rintro rfl
      exact Char.toNat_inj.mp hn
  · rw [dif_neg h]
    refine iff_of_false nofun ?_
    rintro rfl
    exact h c.valid

theorem readHex?_eq_some_iff {cs rest : List Char} {n : Nat} :
    Text.readHex? cs = some (n, rest) ↔ ∃ w x y z i j k l, cs = w :: x :: y :: z :: rest ∧
      Text.hexValue? w = some i ∧ Text.hexValue? x = some j ∧ Text.hexValue? y = some k ∧
        Text.hexValue? z = some l ∧ n = ((i * 16 + j) * 16 + k) * 16 + l := by
  constructor
  · intro h
    unfold Text.readHex? at h
    split at h
    · split at h
      · rename_i hw hx hy hz
        cases h
        exact ⟨_, _, _, _, _, _, _, _, rfl, hw, hx, hy, hz, rfl⟩
      · simp at h
    · simp at h
  · rintro ⟨w, x, y, z, i, j, k, l, rfl, hw, hx, hy, hz, rfl⟩
    simp [Text.readHex?, hw, hx, hy, hz]

theorem utf8Size_of_toNat_le {c : Char} (h : c.toNat ≤ 0x7f) : c.utf8Size = 1 := by
  unfold Char.utf8Size
  rw [if_pos]
  exact h

theorem utf8Size_of_hexValue? {c : Char} {n : Nat} (h : Text.hexValue? c = some n) :
    c.utf8Size = 1 := by
  have hle : ∀ {limit : Char}, c ≤ limit → c.toNat ≤ limit.toNat := fun h => h
  have hc : c ≤ '9' ∨ c ≤ 'f' ∨ c ≤ 'F' := by
    unfold Text.hexValue? at h
    grind
  refine utf8Size_of_toNat_le ?_
  rcases hc with hc | hc | hc <;> exact Nat.le_trans (hle hc) (by decide)

theorem utf8Size_of_simpleEscape? {letter c : Char} (h : Text.simpleEscape? letter = some c) :
    letter.utf8Size = 1 := by
  have hletter : letter ∈ ['"', '\\', '/', 'b', 'f', 'n', 'r', 't'] := by
    unfold Text.simpleEscape? at h
    grind
  have hall : ∀ letter ∈ ['"', '\\', '/', 'b', 'f', 'n', 'r', 't'], letter.utf8Size = 1 := by
    simp [Char.utf8Size]
  exact hall letter hletter

/-- Escapes are made of characters of one byte. -/
theorem Escapes.byteSize_eq_length {sequence : List Char} {c : Char} (h : Escapes sequence c) :
    Text.byteSize sequence = sequence.length := by
  have hslash : ('\\').utf8Size = 1 := rfl
  have hu : ('u').utf8Size = 1 := rfl
  cases h with
  | letter h => simp [utf8Size_of_simpleEscape? h, hslash]
  | code hw hx hy hz _ =>
    simp [hslash, hu, utf8Size_of_hexValue? hw, utf8Size_of_hexValue? hx,
      utf8Size_of_hexValue? hy, utf8Size_of_hexValue? hz]

/-! ## One step of decoding -/

section Steps

variable {position : Nat} {c : Char} {sequence text behind : List Char}

theorem decode_nil : decode position [] = .ok [] := by
  rw [decode.eq_def]

theorem decode_plain (hc : c ≠ '\\') :
    decode position (c :: text) = (decode (position + c.utf8Size) text).map (c :: ·) := by
  rw [decode.eq_def]
  simp [hc]

/-- An escape is replaced by its character. -/
theorem decode_escape (hc : Escapes sequence c) :
    decode position (sequence ++ text) =
      (decode (position + sequence.length) text).map (c :: ·) := by
  cases hc with
  | letter h =>
    rw [decode.eq_def]
    simp [h]
  | @code w x y z i j k l c hw hx hy hz hc =>
    have hread : Text.readHex? (w :: x :: y :: z :: text) =
        some (((i * 16 + j) * 16 + k) * 16 + l, text) :=
      readHex?_eq_some_iff.mpr ⟨w, x, y, z, i, j, k, l, rfl, hw, hx, hy, hz, rfl⟩
    have hchar := charOfCode?_eq_some_iff.mpr hc
    have hletter : Text.simpleEscape? 'u' = none := by decide
    rw [decode.eq_def]
    simp only [List.cons_append, List.nil_append, ne_eq, not_true_eq_false, ↓reduceIte, hletter]
    split
    · simp_all
    · rename_i h
      cases h.symm.trans hread
      simp [hchar]

/-- Where no escape is completed, the text from the backslash on is quoted. -/
theorem decode_blocked (h : Blocked behind) :
    decode position ('\\' :: behind) =
      .error (badEscape position (quotedSize behind) ('\\' :: behind)) := by
  rw [decode.eq_def]
  simp only [ne_eq, not_true_eq_false, ↓reduceIte]
  cases behind with
  | nil => rfl
  | cons letter rest =>
    simp only [quotedSize]
    cases hletter : Text.simpleEscape? letter with
    | some c => exact absurd (List.prefix_append _ rest) (h _ c (.letter hletter))
    | none =>
      simp only []
      by_cases hu : letter = 'u'
      · subst hu
        simp only [not_true_eq_false, ↓reduceIte]
        split
        · rfl
        · rename_i hread
          split
          · rfl
          · rename_i c hchar
            obtain ⟨w, x, y, z, i, j, k, l, rfl, hw, hx, hy, hz, rfl⟩ :=
              readHex?_eq_some_iff.mp hread
            have hc := Escapes.code hw hx hy hz (charOfCode?_eq_some_iff.mp hchar)
            exact absurd (List.prefix_append _ _) (h _ c hc)
      · simp [hu]

end Steps

/-! ## Decoding -/

section Decoding

variable {position : Nat} {text contents behind : List Char}

/-- A part that is spelled well is decoded, and decoding goes on behind it. -/
theorem decode_append (h : Spells text contents) (rest : List Char) :
    decode position (text ++ rest) =
      (decode (position + Text.byteSize text) rest).map (contents ++ ·) := by
  induction h generalizing position with
  | nil =>
    rw [List.nil_append, Text.byteSize_nil, Nat.add_zero]
    cases decode position rest <;> rfl
  | plain hc _ ih =>
    rw [List.cons_append, decode_plain hc, ih, Text.byteSize_cons, Nat.add_assoc]
    cases decode _ rest <;> rfl
  | escape hc _ ih =>
    rw [List.append_assoc, decode_escape hc, ih, Text.byteSize_append, hc.byteSize_eq_length,
      Nat.add_assoc]
    cases decode _ rest <;> rfl

/-- A text spells contents, or up to some backslash it does and nothing behind that completes an
escape. -/
theorem spells_or_blocked (text : List Char) : (∃ contents, Spells text contents) ∨
    ∃ good contents behind, text = good ++ '\\' :: behind ∧ Spells good contents ∧
      Blocked behind := by
  induction hn : text.length using Nat.strongRecOn generalizing text with
  | ind n ih =>
    subst hn
    -- What follows a part that is spelled well is shorter, so it is one of the two.
    have hgo : ∀ {part rest : List Char}, text = part ++ rest → part ≠ [] →
        (∀ {tail contents}, Spells tail contents → ∃ contents', Spells (part ++ tail) contents') →
          (∃ contents, Spells text contents) ∨ ∃ good contents behind,
            text = good ++ '\\' :: behind ∧ Spells good contents ∧ Blocked behind := by
      rintro part rest rfl hpart hspells
      have hlt : rest.length < (part ++ rest).length := by
        rw [List.length_append]
        have := List.length_pos_iff.mpr hpart
        omega
      rcases ih rest.length hlt rest rfl with ⟨contents, h⟩ | ⟨good, contents, behind, rfl, h, hb⟩
      · exact .inl (hspells h)
      · obtain ⟨contents', h⟩ := hspells h
        exact .inr ⟨part ++ good, contents', behind, by rw [List.append_assoc], h, hb⟩
    cases text with
    | nil => exact .inl ⟨[], .nil⟩
    | cons c rest =>
      by_cases hc : c = '\\'
      · subst hc
        by_cases hstarts : ∃ sequence d, Escapes sequence d ∧ sequence <+: '\\' :: rest
        · obtain ⟨sequence, d, hescapes, tail, htail⟩ := hstarts
          have hne : sequence ≠ [] := by
            cases hescapes <;> simp
          exact hgo htail.symm hne fun h => ⟨_, .escape hescapes h⟩
        · exact .inr ⟨[], [], rest, rfl, .nil, fun sequence d hescapes hinitial =>
            hstarts ⟨sequence, d, hescapes, hinitial⟩⟩
      · exact hgo List.singleton_append.symm (by simp) fun h => ⟨_, .plain hc h⟩

theorem decode_of_spells (h : Spells text contents) : decode position text = .ok contents := by
  have hwhole : decode position (text ++ []) = _ := decode_append h []
  rwa [List.append_nil, decode_nil, Except.map, List.append_nil] at hwhole

theorem decode_of_blocked {good : List Char} (h : Spells good contents) (hb : Blocked behind) :
    decode position (good ++ '\\' :: behind) =
      .error (badEscape (position + Text.byteSize good) (quotedSize behind) ('\\' :: behind)) := by
  rw [decode_append h, decode_blocked hb, Except.map]

/-- Decoding gives the contents that are spelled, and only them. -/
theorem decode_eq_ok_iff : decode position text = .ok contents ↔ Spells text contents := by
  refine ⟨fun h => ?_, decode_of_spells⟩
  rcases spells_or_blocked text with ⟨contents', hspells⟩ | ⟨good, _, behind, rfl, hspells, hb⟩
  · rw [decode_of_spells hspells] at h
    cases h
    exact hspells
  · simp [decode_of_blocked hspells hb] at h

/-- Decoding stops at the first backslash that starts no escape. -/
theorem decode_eq_error_iff {stop : Stop} : decode position text = .error stop ↔
    ∃ good contents behind, text = good ++ '\\' :: behind ∧ Spells good contents ∧
      Blocked behind ∧ stop =
        badEscape (position + Text.byteSize good) (quotedSize behind) ('\\' :: behind) := by
  constructor
  · intro h
    rcases spells_or_blocked text with
      ⟨contents, hspells⟩ | ⟨good, contents, behind, rfl, hspells, hb⟩
    · simp [decode_of_spells hspells] at h
    · rw [decode_of_blocked hspells hb] at h
      cases h
      exact ⟨good, contents, behind, rfl, hspells, hb, rfl⟩
  · rintro ⟨good, contents, behind, rfl, hspells, hb, rfl⟩
    exact decode_of_blocked hspells hb

/-- A bad escape cannot be quoted if the quotation would end inside a character. -/
theorem badEscape_eq_abort_iff {size : Nat} :
    badEscape position size text = .abort ↔ Text.InsideCharacter size text := by
  have hcut : badEscape position size text = .abort ↔
      Text.takeBytes? (min size (Text.byteSize text)) text = none := by
    unfold badEscape
    simp only []
    split
    · rename_i h
      simp [h]
    · rename_i h
      simp [h]
  rw [hcut, Text.takeBytes?_eq_none_iff (Nat.min_le_right _ _)]
  by_cases hsize : size ≤ Text.byteSize text
  · rw [Nat.min_eq_left hsize]
  · -- No character reaches beyond the end of the text.
    have hend : ∀ {n}, Text.byteSize text ≤ n → ¬Text.InsideCharacter n text := by
      rintro n hn ⟨before, c, after, rfl, -, hlt⟩
      rw [Text.byteSize_append, Text.byteSize_cons] at hn
      omega
    exact iff_of_false (hend (by omega)) (hend (by omega))

end Decoding

end TaggedUnion.Literal
