import TaggedUnion.Proofs.Literal.Printing
import TaggedUnion.Proofs.Literal.Scanning

/-!
# Strings, character by character

Every character can be written between quotes in a few ways: as it is, by a short escape or by its
code. A string says what its characters were written for, whichever way was taken for each.

* `Glyph`: a character with a way to write it.
* `written`: the glyphs between quotes.
* `quotes_iff_exists_glyphs`: there is no other way to write a string.
* `parse_written`: the glyphs are one token, and it is read as their characters.
-/

namespace TaggedUnion.Literal

/-! ## Glyphs -/

/-- The short escapes: a character and the letter that stands for it behind a backslash. -/
def shortEscapes : List (Char × Char) :=
  [('"', '"'), ('\\', '\\'), ('/', '/'), ('\x08', 'b'), ('\x0c', 'f'), ('\n', 'n'), ('\r', 'r'),
    ('\t', 't')]

/-- The hexadecimal digits, the letters in the given case. -/
def hexDigits (uppercase : Bool) : List Char :=
  ['0', '1', '2', '3', '4', '5', '6', '7', '8', '9'] ++
    if uppercase then ['A', 'B', 'C', 'D', 'E', 'F'] else ['a', 'b', 'c', 'd', 'e', 'f']

/-- The digit of a number below sixteen. -/
def hexDigit (uppercase : Bool) (n : Nat) : Char := (hexDigits uppercase).getD n '0'

/-- A character with a way to write it between quotes. -/
inductive Glyph where
  /-- As it is. A quote would end the string, a backslash starts an escape, and a string does not
  reach beyond its line. -/
  | raw (c : Char) (hquote : c ≠ '"') (hslash : c ≠ '\\') (hline : c ≠ '\n')
  | short (c letter : Char) (h : (c, letter) ∈ shortEscapes)
  /-- By its code, each digit in a case of its own. Four digits reach the first plane only. -/
  | code (c : Char) (h : c.toNat < 0x10000) (uppercase : Fin 4 → Bool)

namespace Glyph

/-- The character that is meant. -/
def char : Glyph → Char
  | raw c .. => c
  | short c .. => c
  | code c .. => c

/-- What is written for it. -/
def text : Glyph → List Char
  | raw c .. => [c]
  | short _ letter _ => ['\\', letter]
  | code c _ uppercase =>
    ['\\', 'u', hexDigit (uppercase 0) (c.toNat / 0x1000),
      hexDigit (uppercase 1) (c.toNat / 0x100 % 16), hexDigit (uppercase 2) (c.toNat / 0x10 % 16),
      hexDigit (uppercase 3) (c.toNat % 16)]

end Glyph

/-- The glyphs between quotes. -/
def written (glyphs : List Glyph) : String :=
  String.ofList ('"' :: (glyphs.flatMap Glyph.text ++ ['"']))

/-! ## Escapes -/

section Escapes

variable {c letter : Char} {n : Nat}

theorem hexValue?_hexDigit_case :
    ∀ uppercase, ∀ n < 16, Text.hexValue? (hexDigit uppercase n) = some n := by
  decide

/-- Every hexadecimal digit is the digit of its value in one of the cases. -/
theorem exists_hexDigit (h : Text.hexValue? c = some n) :
    n < 16 ∧ ∃ uppercase, hexDigit uppercase n = c := by
  have hle : ∀ {d e : Char}, d ≤ e ↔ d.toNat ≤ e.toNat := Iff.rfl
  have hc : Char.ofNat c.toNat = c := Char.ofNat_toNat c
  unfold Text.hexValue? at h
  simp only [hle] at h
  -- In each range, the code of the digit is one of a few.
  split_ifs at h with hrange hrange hrange
  all_goals
    obtain rfl := Option.some.inj h
    rw [← hc]
    generalize c.toNat = code at *
    obtain ⟨hlow, hhigh⟩ := hrange
    simp only [Char.reduceToNat] at hlow hhigh
    interval_cases code <;> decide

theorem simpleEscape?_eq_some_iff :
    Text.simpleEscape? letter = some c ↔ (c, letter) ∈ shortEscapes := by
  constructor
  · intro h
    unfold Text.simpleEscape? at h
    split_ifs at h with hself
    · obtain rfl := Option.some.inj h
      rcases hself with rfl | rfl | rfl <;> decide
    all_goals
      obtain rfl := Option.some.inj h
      subst letter
      decide
  · intro h
    have hall : ∀ pair ∈ shortEscapes, Text.simpleEscape? pair.2 = some pair.1 := by decide
    exact hall (c, letter) h

end Escapes

/-! ## Strings of glyphs -/

section Strings

variable {text contents : List Char}

/-- The digits of the code of a character in the first plane give its code again. -/
theorem toNat_digits {n : Nat} (h : n < 0x10000) :
    ((n / 0x1000 * 16 + n / 0x100 % 16) * 16 + n / 0x10 % 16) * 16 + n % 16 = n := by
  omega

theorem Glyph.quotes_cons (glyph : Glyph) (h : Quotes text contents) :
    Quotes (glyph.text ++ text) (glyph.char :: contents) := by
  cases glyph with
  | raw c hquote hslash hline => exact .plain hquote hslash hline h
  | short c letter hmem => exact .escape (.letter (simpleEscape?_eq_some_iff.mpr hmem)) h
  | code c hc uppercase =>
    have hdigit : ∀ i {n}, n < 16 → Text.hexValue? (hexDigit (uppercase i) n) = some n :=
      fun i n hn => hexValue?_hexDigit_case (uppercase i) n hn
    exact .escape (.code (hdigit 0 (by omega)) (hdigit 1 (by omega)) (hdigit 2 (by omega))
      (hdigit 3 (by omega)) (toNat_digits hc).symm) h

/-- An escape is a glyph. -/
theorem Escapes.exists_glyph {sequence : List Char} {c : Char} (h : Escapes sequence c) :
    ∃ glyph : Glyph, glyph.text = sequence ∧ glyph.char = c := by
  cases h with
  | letter hletter => exact ⟨.short c _ (simpleEscape?_eq_some_iff.mp hletter), rfl, rfl⟩
  | @code w x y z i j k l _ hw hx hy hz hc =>
    obtain ⟨hi, upper₀, rfl⟩ := exists_hexDigit hw
    obtain ⟨hj, upper₁, rfl⟩ := exists_hexDigit hx
    obtain ⟨hk, upper₂, rfl⟩ := exists_hexDigit hy
    obtain ⟨hl, upper₃, rfl⟩ := exists_hexDigit hz
    refine ⟨.code c (by omega) ![upper₀, upper₁, upper₂, upper₃], ?_, rfl⟩
    have hdigits : c.toNat / 0x1000 = i ∧ c.toNat / 0x100 % 16 = j ∧ c.toNat / 0x10 % 16 = k ∧
        c.toNat % 16 = l := by
      omega
    obtain ⟨rfl, rfl, rfl, rfl⟩ := hdigits
    rfl

/-- **Strings are written glyph by glyph.** There is no other way to spell contents between
quotes. -/
theorem quotes_iff_exists_glyphs : Quotes text contents ↔
    ∃ glyphs : List Glyph, glyphs.flatMap Glyph.text = text ∧ glyphs.map Glyph.char = contents := by
  constructor
  · intro h
    induction h with
    | nil => exact ⟨[], rfl, rfl⟩
    | plain hquote hslash hline _ ih =>
      obtain ⟨glyphs, rfl, rfl⟩ := ih
      exact ⟨.raw _ hquote hslash hline :: glyphs, rfl, rfl⟩
    | escape hc _ ih =>
      obtain ⟨glyphs, rfl, rfl⟩ := ih
      obtain ⟨glyph, rfl, rfl⟩ := hc.exists_glyph
      exact ⟨glyph :: glyphs, rfl, rfl⟩
  · rintro ⟨glyphs, rfl, rfl⟩
    induction glyphs with
    | nil => exact .nil
    | cons glyph glyphs ih => exact glyph.quotes_cons ih

/-- The text between quotes is one token. -/
theorem scans_quotes (h : Quotes text contents) :
    Lexeme.Scans ⟨.string, '"' :: (text ++ ['"'])⟩ [] :=
  (Lexeme.IsProper.string h).scans (.inr (by simp [EndsWord]))

theorem parse_quotes (h : Quotes text contents) :
    parse (String.ofList ('"' :: (text ++ ['"']))) = .ok ⟨.string (String.ofList contents),
      ⟨0, Text.byteSize ('"' :: (text ++ ['"']))⟩⟩ := by
  have hspells : Spells (('"' :: (text ++ ['"'])).drop 1).dropLast contents := by
    simpa using h.spells
  have hsays : Says (Lexeme.token ⟨.string, '"' :: (text ++ ['"'])⟩ 0)
      (.string (String.ofList contents)) := .string hspells
  have hparse := parse_lexeme (scans_quotes h) hsays
  exact hparse

theorem eq_nil_of_byteSize_eq_zero {cs : List Char} (h : Text.byteSize cs = 0) : cs = [] := by
  by_contra hne
  have := Text.byteSize_pos hne
  omega

/-- A token as long as its text is the whole text. -/
theorem Lexed.scan_of_whole {cs : List Char} {token : Token} (h : Lexed 0 cs [token])
    (hspan : token.span = ⟨0, Text.byteSize cs⟩) :
    ∃ c behind, cs = c :: behind ∧ token.text = cs ∧
      Token.scan c behind = .ok (token.kind, token.text, []) := by
  obtain ⟨front, c, behind, rest, rfl, hstart, hstop, hscan, -⟩ :=
    h.exists_scan (List.nil_append _).symm
  rw [hspan] at hstart hstop
  obtain rfl := eq_nil_of_byteSize_eq_zero (by simpa using hstart.symm)
  have hsplit := (Token.scan_append hscan).1
  have hrest : Text.byteSize rest = 0 := by
    have hsize := congrArg Text.byteSize hsplit
    rw [Text.byteSize_append] at hsize
    simp only [List.nil_append] at hstop
    omega
  obtain rfl := eq_nil_of_byteSize_eq_zero hrest
  rw [List.append_nil] at hsplit
  exact ⟨c, behind, rfl, hsplit, hscan⟩

/-- A text is a string from its start to its end only if it is written between quotes. -/
theorem exists_quotes_of_parse {source contents : String}
    (h : parse source = .ok ⟨.string contents, ⟨0, Text.byteSize source.toList⟩⟩) :
    ∃ text cs, Quotes text cs ∧ source.toList = '"' :: (text ++ ['"']) ∧
      contents = String.ofList cs := by
  obtain ⟨tokens, htokens, hderives, -⟩ := parse_eq_ok_iff.mp h
  generalize hnode : (⟨.string contents, ⟨0, Text.byteSize source.toList⟩⟩ : Node) = node
    at hderives
  cases hderives with
  | @single token value hsays =>
    obtain ⟨rfl, hspan⟩ := Node.mk.inj hnode
    obtain ⟨c, behind, -, htext, hscan⟩ :=
      (tokenizeFrom_eq_ok_iff.mp htokens).scan_of_whole hspan.symm
    cases hsays with
    | @string _ _ cs hspells =>
      cases scanned_of_scan hscan with
      | mark _ hkind => simp [TokenKind.isMark] at hkind
      | @string part _ _ hscan =>
        have hspells : Spells part cs := by simpa using hspells
        obtain rfl : part ++ ['"'] = behind := by simpa using scanQuoted_append hscan
        exact ⟨part, cs, quotes_of_spells hspells hscan, htext.symm, rfl⟩
  | list => cases (Node.mk.inj hnode).1
  | object => cases (Node.mk.inj hnode).1

end Strings

/-- **A string says what its characters are written for.** Whichever way is taken for each of them,
the text is one token, and it is read as these characters. -/
theorem parse_written (glyphs : List Glyph) :
    tokenize (written glyphs) = .ok [⟨.string, ⟨0, Text.byteSize (written glyphs).toList⟩,
        (written glyphs).toList⟩] ∧
      parse (written glyphs) = .ok ⟨.string (String.ofList (glyphs.map Glyph.char)),
        ⟨0, Text.byteSize (written glyphs).toList⟩⟩ := by
  have hquotes := quotes_iff_exists_glyphs.mpr ⟨glyphs, rfl, rfl⟩
  have htokens := tokenize_lexeme (scans_quotes hquotes)
  have hparse := parse_quotes hquotes
  rw [written, String.toList_ofList]
  refine ⟨?_, hparse⟩
  rw [htokens, Lexeme.token, Nat.zero_add]

/-- **Nothing else is read as a string.** A text that is a string from its start to its end is
written glyph by glyph. -/
theorem parse_eq_string_iff {source contents : String} :
    parse source = .ok ⟨.string contents, ⟨0, Text.byteSize source.toList⟩⟩ ↔
      ∃ glyphs : List Glyph, source = written glyphs ∧
        contents = String.ofList (glyphs.map Glyph.char) := by
  constructor
  · intro h
    obtain ⟨text, cs, hquotes, hsource, rfl⟩ := exists_quotes_of_parse h
    obtain ⟨glyphs, rfl, rfl⟩ := quotes_iff_exists_glyphs.mp hquotes
    exact ⟨glyphs, String.toList_inj.mp (by rw [hsource, written, String.toList_ofList]), rfl⟩
  · rintro ⟨glyphs, rfl, rfl⟩
    have hparse := parse_quotes (quotes_iff_exists_glyphs.mpr ⟨glyphs, rfl, rfl⟩)
    rwa [written, String.toList_ofList]

end TaggedUnion.Literal
