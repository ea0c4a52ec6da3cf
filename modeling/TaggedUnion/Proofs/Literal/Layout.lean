import Mathlib
import TaggedUnion.Proofs.Decimal.Spelling
import TaggedUnion.Proofs.Literal.Escapes
import TaggedUnion.Proofs.Literal.Lexing

/-!
# Tokens in any layout

Blanks, commas and comments between tokens say nothing. Whatever stands there, the text splits into
the same tokens, as long as no two words run together.

* `Quotes`: the ways to write given contents between quotes.
* `Lexeme`, `Lexeme.IsProper`: a token without its place, and the spellings of each kind.
* `Ignorable`: what may stand between tokens.
* `layOut`, `IsLayout`: lexemes with text between them, and when that keeps them apart.
* `exists_lexed_layOut`: lexemes that are laid out are split into tokens again.
-/

namespace TaggedUnion.Literal

/-! ## Strings -/

/-- The texts that spell given contents between quotes: a quote, a backslash and a newline are
escaped, and any other character may be. -/
inductive Quotes : List Char → List Char → Prop where
  | nil : Quotes [] []
  | plain {c : Char} {text contents : List Char} (hquote : c ≠ '"') (hslash : c ≠ '\\')
    (hline : c ≠ '\n') (h : Quotes text contents) : Quotes (c :: text) (c :: contents)
  | escape {sequence : List Char} {c : Char} {text contents : List Char}
    (hc : Escapes sequence c) (h : Quotes text contents) :
    Quotes (sequence ++ text) (c :: contents)

section Strings

variable {text contents rest : List Char}

theorem Quotes.spells (h : Quotes text contents) : Spells text contents := by
  induction h with
  | nil => exact .nil
  | plain _ hslash _ _ ih => exact .plain hslash ih
  | escape hc _ ih => exact .escape hc ih

theorem scanQuoted_cons {c : Char} {part : List Char} (hquote : c ≠ '"') (hslash : c ≠ '\\')
    (hline : c ≠ '\n') (h : scanQuoted text = .ok (part, rest)) :
    scanQuoted (c :: text) = .ok (c :: part, rest) := by
  rw [scanQuoted.eq_def]
  simp [hquote, hslash, hline, h]

theorem scanQuoted_slash {letter : Char} {part : List Char} (hline : letter ≠ '\n')
    (h : scanQuoted text = .ok (part, rest)) :
    scanQuoted ('\\' :: letter :: text) = .ok ('\\' :: letter :: part, rest) := by
  rw [scanQuoted.eq_def]
  simp [hline, h]

theorem plain_of_hexValue? {c : Char} {n : Nat} (h : Text.hexValue? c = some n) :
    c ≠ '"' ∧ c ≠ '\\' ∧ c ≠ '\n' := by
  refine ⟨?_, ?_, ?_⟩ <;> rintro rfl <;> simp [Text.hexValue?] at h

/-- A string ends at its closing quote. -/
theorem Quotes.scan (h : Quotes text contents) :
    scanQuoted (text ++ '"' :: rest) = .ok (text ++ ['"'], rest) := by
  induction h with
  | nil =>
    rw [List.nil_append, scanQuoted.eq_def]
    rfl
  | plain hquote hslash hline _ ih => exact scanQuoted_cons hquote hslash hline ih
  | escape hc _ ih =>
    cases hc with
    | letter hletter =>
      refine scanQuoted_slash ?_ ih
      rintro rfl
      simp [Text.simpleEscape?] at hletter
    | code hw hx hy hz =>
      obtain ⟨hquote, hslash, hline⟩ := plain_of_hexValue? hz
      have hz := scanQuoted_cons hquote hslash hline ih
      obtain ⟨hquote, hslash, hline⟩ := plain_of_hexValue? hy
      have hy := scanQuoted_cons hquote hslash hline hz
      obtain ⟨hquote, hslash, hline⟩ := plain_of_hexValue? hx
      have hx := scanQuoted_cons hquote hslash hline hy
      obtain ⟨hquote, hslash, hline⟩ := plain_of_hexValue? hw
      exact scanQuoted_slash (by decide) (scanQuoted_cons hquote hslash hline hx)

end Strings

/-! ## Lexemes -/

/-- A token without its place. -/
structure Lexeme where
  kind : TokenKind
  text : List Char
  deriving DecidableEq, Repr

/-- What a token is wherever it stands. -/
def Token.lexeme (token : Token) : Lexeme := ⟨token.kind, token.text⟩

/-- Whether a kind of token is a single mark. The others are words. -/
def TokenKind.isMark : TokenKind → Bool
  | .braceOpen => true
  | .braceClose => true
  | .bracketOpen => true
  | .bracketClose => true
  | .colon => true
  | .name => false
  | .int => false
  | .float => false
  | .string => false

/-- The spellings of each kind of token. -/
inductive Lexeme.IsProper : Lexeme → Prop where
  | mark {c : Char} {kind : TokenKind} (hmark : mark? c = some kind) : IsProper ⟨kind, [c]⟩
  | name {text : List Char} (hname : Text.isNameChars text) : IsProper ⟨.name, text⟩
  | int {n : Numeral} (hn : n.IsProper) (hint : n.isInteger) : IsProper ⟨.int, n.text⟩
  | float {n : Numeral} (hn : n.IsProper) (hfloat : n.isInteger = false) : IsProper ⟨.float, n.text⟩
  | string {text contents : List Char} (hquotes : Quotes text contents) :
    IsProper ⟨.string, '"' :: (text ++ ['"'])⟩

/-- The characters that end any word in front of them. -/
def wordEnds : List Char := [' ', '\t', '\r', '\n', ',', '#', '\x7b', '\x7d', '[', ']', ':']

/-- Whether no word goes on with the text. -/
def EndsWord (rest : List Char) : Prop := ∀ c ∈ rest.head?, c ∈ wordEnds

section Words

variable {c : Char} {rest : List Char}

theorem mem_wordEnds_iff : c ∈ wordEnds ↔ isIgnored c ∨ c = '#' ∨ (mark? c).isSome := by
  have hmark : (mark? c).isSome ↔ c = '\x7b' ∨ c = '\x7d' ∨ c = '[' ∨ c = ']' ∨ c = ':' := by
    simp only [mark?]
    split_ifs <;> simp_all
  simp only [wordEnds, isIgnored, hmark, List.mem_cons, List.not_mem_nil, or_false,
    Bool.or_eq_true, decide_eq_true_eq, or_assoc]

/-- What ends a word is not a part of one. -/
theorem not_word_of_mem_wordEnds : ∀ c ∈ wordEnds, Text.isNameContinue c = false ∧
    c.isDigit = false ∧ c ≠ '.' ∧ c ≠ 'e' ∧ c ≠ 'E' ∧ c ≠ '-' ∧ c ≠ '"' := by
  intro c hc
  simp only [wordEnds, List.mem_cons, List.not_mem_nil, or_false] at hc
  rcases hc with rfl | rfl | rfl | rfl | rfl | rfl | rfl | rfl | rfl | rfl | rfl <;> decide

theorem EndsWord.follows (h : EndsWord rest) : Numeral.Follows rest := by
  intro c hc
  obtain ⟨-, hdigit, hpoint, hsmall, hlarge, -⟩ := not_word_of_mem_wordEnds c (h c hc)
  exact ⟨hdigit, hpoint, hsmall, hlarge⟩

theorem EndsWord.not_isNameContinue (h : EndsWord rest) :
    ∀ c ∈ rest.head?, Text.isNameContinue c = false :=
  fun c hc => (not_word_of_mem_wordEnds c (h c hc)).1

theorem not_ignored_of_mark {kind : TokenKind} (h : mark? c = some kind) :
    isIgnored c = false ∧ c ≠ '#' := by
  simp only [mark?] at h
  split_ifs at h with h₁ h₂ h₃ h₄ h₅ <;> subst c <;> decide

theorem not_special_of_not_mem_wordEnds (h : c ∉ wordEnds) :
    isIgnored c = false ∧ c ≠ '#' ∧ mark? c = none := by
  simpa [mem_wordEnds_iff] using h

theorem not_isNameStart_of_isDigit (h : c.isDigit) : Text.isNameStart c = false := by
  have hunderscore : c ≠ '_' := by
    rintro rfl
    exact absurd h (by decide)
  simp only [Char.isDigit, Bool.and_eq_true, decide_eq_true_eq, ge_iff_le,
    UInt32.le_iff_toNat_le] at h
  simp only [Text.isNameStart, hunderscore, Char.isAlpha, Char.isUpper, Char.isLower, ge_iff_le,
    UInt32.le_iff_toNat_le, Bool.or_eq_false_iff, Bool.and_eq_false_iff, decide_eq_false_iff_not,
    decide_false]
  simp at h ⊢
  omega

end Words

/-- The token is what is scanned off in front of the given text. Its first character is neither
ignored nor the start of a comment. -/
def Lexeme.Scans (lexeme : Lexeme) (rest : List Char) : Prop :=
  ∃ c cs, lexeme.text = c :: cs ∧ isIgnored c = false ∧ c ≠ '#' ∧
    Token.scan c (cs ++ rest) = .ok (lexeme.kind, lexeme.text, rest)

/-- The lexeme as the token that starts at a position. -/
def Lexeme.token (lexeme : Lexeme) (position : Nat) : Token :=
  ⟨lexeme.kind, ⟨position, position + Text.byteSize lexeme.text⟩, lexeme.text⟩

section Scanning

variable {rest : List Char}

theorem Lexeme.Scans.lexed {lexeme : Lexeme} {position : Nat} {tokens : List Token}
    (h : lexeme.Scans rest) (hrest : Lexed (position + Text.byteSize lexeme.text) rest tokens) :
    Lexed position (lexeme.text ++ rest) (lexeme.token position :: tokens) := by
  obtain ⟨c, cs, htext, hignored, hhash, hscan⟩ := h
  have hlexed := Lexed.token hignored hhash hscan hrest
  rwa [← List.cons_append, ← htext] at hlexed

theorem scans_mark {c : Char} {kind : TokenKind} (h : mark? c = some kind) :
    Lexeme.Scans ⟨kind, [c]⟩ rest := by
  obtain ⟨hignored, hhash⟩ := not_ignored_of_mark h
  exact ⟨c, [], rfl, hignored, hhash, by simp [Token.scan, h]⟩

theorem scans_name {text : List Char} (h : Text.isNameChars text)
    (hrest : ∀ c ∈ rest.head?, Text.isNameContinue c = false) :
    Lexeme.Scans ⟨.name, text⟩ rest := by
  cases text with
  | nil => simp [Text.isNameChars] at h
  | cons c cs =>
    obtain ⟨hstart, hcontinue⟩ := Bool.and_eq_true_iff.mp h
    obtain ⟨htake, hdrop⟩ := span_append (List.all_eq_true.mp hcontinue) hrest
    have hmem : c ∉ wordEnds := by
      intro hmem
      have := (not_word_of_mem_wordEnds c hmem).1
      simp [Text.isNameContinue_of_isNameStart hstart] at this
    obtain ⟨hignored, hhash, hmark⟩ := not_special_of_not_mem_wordEnds hmem
    exact ⟨c, cs, rfl, hignored, hhash, by simp [Token.scan, hmark, hstart, htake, hdrop]⟩

/-- The first character of a number is neither a mark nor a part of a name nor a quote, so a number
is what is scanned. -/
theorem scans_numeral {n : Numeral} (hn : n.IsProper) (hrest : n.Ends rest) :
    Lexeme.Scans ⟨if n.isInteger then .int else .float, n.text⟩ rest := by
  obtain ⟨c, cs, htext, hc⟩ := hn.text_eq_cons
  have hscan := Numeral.scan_eq_some_iff.mpr ⟨hn, rfl, hrest⟩
  rw [htext, List.cons_append] at hscan
  have hmem : c ∉ wordEnds := by
    intro hmem
    obtain ⟨-, hdigit, -, -, -, hminus, -⟩ := not_word_of_mem_wordEnds c hmem
    simp_all
  obtain ⟨hignored, hhash, hmark⟩ := not_special_of_not_mem_wordEnds hmem
  have hname : Text.isNameStart c = false := by
    rcases hc with rfl | hdigit
    · decide
    · exact not_isNameStart_of_isDigit hdigit
  have hquote : c ≠ '"' := by
    rintro rfl
    exact absurd hc (by decide)
  exact ⟨c, cs, htext, hignored, hhash, by simp [Token.scan, hmark, hname, hquote, hscan]⟩

theorem scans_string {text : List Char} (hscan : scanQuoted (text ++ rest) = .ok (text, rest)) :
    Lexeme.Scans ⟨.string, '"' :: text⟩ rest := by
  refine ⟨'"', text, rfl, rfl, by decide, ?_⟩
  have hmark : mark? '"' = none := by decide
  have hname : Text.isNameStart '"' = false := by decide
  simp [Token.scan, hmark, hname, hscan]

/-- **A token is scanned off as a whole.** A mark and a string end by themselves, any other token
where the text goes on with something else. -/
theorem Lexeme.IsProper.scans {lexeme : Lexeme} (h : lexeme.IsProper)
    (hrest : lexeme.kind.isMark ∨ EndsWord rest) : lexeme.Scans rest := by
  cases h with
  | mark hmark => exact scans_mark hmark
  | name hname =>
    have hrest : EndsWord rest := by simpa [TokenKind.isMark] using hrest
    exact scans_name hname hrest.not_isNameContinue
  | @int n hn hint =>
    have hrest : EndsWord rest := by simpa [TokenKind.isMark] using hrest
    simpa [hint] using scans_numeral hn hrest.follows.ends
  | @float n hn hfloat =>
    have hrest : EndsWord rest := by simpa [TokenKind.isMark] using hrest
    simpa [hfloat] using scans_numeral hn hrest.follows.ends
  | string hquotes =>
    refine scans_string ?_
    rw [List.append_assoc, List.singleton_append]
    exact hquotes.scan

end Scanning

theorem Lexeme.IsProper.endsWord_of_isMark {lexeme : Lexeme} {rest : List Char}
    (h : lexeme.IsProper) (hmark : lexeme.kind.isMark) : EndsWord (lexeme.text ++ rest) := by
  cases h with
  | mark h =>
    rintro c ⟨⟩
    simp [mem_wordEnds_iff, h]
  | _ => simp [TokenKind.isMark] at hmark

/-! ## What stands between tokens -/

/-- The texts that may stand between tokens: blanks, commas and comments with the end of their
line. -/
inductive Ignorable : List Char → Prop where
  | nil : Ignorable []
  | char {c : Char} {rest : List Char} (hc : isIgnored c) (h : Ignorable rest) :
    Ignorable (c :: rest)
  | comment {line rest : List Char} (hline : '\n' ∉ line) (h : Ignorable rest) :
    Ignorable ('#' :: (line ++ '\n' :: rest))

section Gaps

variable {position : Nat} {gap rest : List Char} {tokens : List Token}

/-- A line stops at the first newline. -/
theorem line_append {line rest : List Char} (hline : '\n' ∉ line) :
    (line ++ '\n' :: rest).takeWhile (· ≠ '\n') = line ∧
      (line ++ '\n' :: rest).dropWhile (· ≠ '\n') = '\n' :: rest := by
  have hall : ∀ c ∈ line, decide (c ≠ '\n') = true := by
    intro c hc
    simpa using fun h : c = '\n' => hline (h ▸ hc)
  have hend : ∀ c ∈ ('\n' :: rest).head?, decide (c ≠ '\n') = false := by
    simp
  exact span_append hall hend

/-- What stands between tokens says nothing. -/
theorem Lexed.ignorable (h : Lexed (position + Text.byteSize gap) rest tokens)
    (hgap : Ignorable gap) : Lexed position (gap ++ rest) tokens := by
  induction hgap generalizing position with
  | nil => exact h
  | @char c _ hc _ ih =>
    refine .ignored hc (ih ?_)
    rwa [Text.byteSize_cons, utf8Size_of_isIgnored hc, ← Nat.add_assoc] at h
  | @comment line gap hline _ ih =>
    rw [List.cons_append, List.append_assoc]
    refine .comment ?_
    rw [List.cons_append, (line_append hline).1, (line_append hline).2]
    refine .ignored rfl (ih ?_)
    have hhash : ('#').utf8Size = 1 := rfl
    have hnewline : ('\n').utf8Size = 1 := rfl
    rw [Text.byteSize_cons, Text.byteSize_append, Text.byteSize_cons, hhash, hnewline] at h
    rw [show position + 1 + Text.byteSize line + 1 + Text.byteSize gap =
      position + (1 + (Text.byteSize line + (1 + Text.byteSize gap))) by omega]
    exact h

theorem Ignorable.endsWord (hgap : Ignorable gap) (hrest : gap = [] → EndsWord rest) :
    EndsWord (gap ++ rest) := by
  cases hgap with
  | nil => exact hrest rfl
  | char hc _ =>
    rintro c ⟨⟩
    exact mem_wordEnds_iff.mpr (.inl hc)
  | comment _ _ =>
    rintro c ⟨⟩
    decide

end Gaps

/-! ## Lexemes with text between them -/

/-- A token with what stands in front of it. -/
structure Piece where
  gap : List Char
  lexeme : Lexeme

/-- The text in which the pieces stand one after the other, in front of the given end. -/
def layOut (pieces : List Piece) (last : List Char) : List Char :=
  pieces.flatMap (fun piece => piece.gap ++ piece.lexeme.text) ++ last

/-- The pieces keep their tokens apart: only what may stand between tokens does, and something does
between two words. -/
structure IsLayout (pieces : List Piece) (last : List Char) : Prop where
  gaps : ∀ piece ∈ pieces, Ignorable piece.gap
  last : Ignorable last
  apart : pieces.IsChain fun piece next =>
    piece.lexeme.kind.isMark ∨ next.lexeme.kind.isMark ∨ next.gap ≠ []

section Layouts

variable {position : Nat} {pieces : List Piece} {last : List Char}

theorem layOut_cons {piece : Piece} : layOut (piece :: pieces) last =
    piece.gap ++ (piece.lexeme.text ++ layOut pieces last) := by
  simp [layOut]

/-- Behind a word, the layout goes on with something that ends it. -/
theorem IsLayout.endsWord {piece : Piece} (h : IsLayout (piece :: pieces) last)
    (hproper : ∀ piece ∈ pieces, piece.lexeme.IsProper) (hword : piece.lexeme.kind.isMark = false) :
    EndsWord (layOut pieces last) := by
  cases pieces with
  | nil =>
    have hlast : EndsWord (last ++ []) := h.last.endsWord fun _ => by simp [EndsWord]
    simpa [layOut] using hlast
  | cons next pieces =>
    rw [layOut_cons]
    refine (h.gaps next (by simp)).endsWord fun hgap => ?_
    have hmark : next.lexeme.kind.isMark := by
      simpa [hword, hgap] using (List.isChain_cons_cons.mp h.apart).1
    exact (hproper next List.mem_cons_self).endsWord_of_isMark hmark

/-- **A layout does not change the tokens.** -/
theorem exists_lexed_layOut (position : Nat) (hproper : ∀ piece ∈ pieces, piece.lexeme.IsProper)
    (h : IsLayout pieces last) : ∃ tokens, Lexed position (layOut pieces last) tokens ∧
      tokens.map Token.lexeme = pieces.map Piece.lexeme := by
  induction pieces generalizing position with
  | nil =>
    refine ⟨[], ?_, rfl⟩
    simpa [layOut] using Lexed.ignorable .nil h.last
  | cons piece pieces ih =>
    obtain ⟨hpiece, hpieces⟩ := List.forall_mem_cons.mp hproper
    have hlayout : IsLayout pieces last :=
      ⟨fun piece hmem => h.gaps piece (List.mem_cons_of_mem _ hmem), h.last, h.apart.tail⟩
    have hrest : piece.lexeme.kind.isMark ∨ EndsWord (layOut pieces last) := by
      cases hmark : piece.lexeme.kind.isMark with
      | true => exact .inl rfl
      | false => exact .inr (h.endsWord hpieces hmark)
    obtain ⟨tokens, htokens, hlexemes⟩ := ih
      (position + Text.byteSize piece.gap + Text.byteSize piece.lexeme.text) hpieces hlayout
    have hlexed := (hpiece.scans hrest).lexed htokens
    have hlaid := hlexed.ignorable (h.gaps piece List.mem_cons_self)
    rw [← layOut_cons] at hlaid
    exact ⟨_, hlaid, congrArg (piece.lexeme :: ·) hlexemes⟩

/-- `exists_lexed_layOut` for a whole text. -/
theorem exists_tokenize_layOut (hproper : ∀ piece ∈ pieces, piece.lexeme.IsProper)
    (h : IsLayout pieces last) :
    ∃ tokens, tokenize (String.ofList (layOut pieces last)) = .ok tokens ∧
      tokens.map Token.lexeme = pieces.map Piece.lexeme := by
  obtain ⟨tokens, hlexed, htokens⟩ := exists_lexed_layOut 0 hproper h
  refine ⟨tokens, ?_, htokens⟩
  rw [tokenize, String.toList_ofList]
  exact tokenizeFrom_eq_ok_iff.mpr hlexed

end Layouts

end TaggedUnion.Literal
