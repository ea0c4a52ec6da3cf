import TaggedUnion.Proofs.Literal.Parsing
import TaggedUnion.Proofs.Literal.Scanning

/-!
# Numbers with nothing behind them

A number ends where the longest numeral ends, whatever stands there. So a word may follow it without
a blank: `[1a]` is a list of two items, and so is `[01]`. The grammar of GraphQL allows neither.

* `Numeral.Adjoins`: the words that a number is told apart from without a blank.
* `Adjacent`: two tokens of a text with nothing between them.
* `exists_adjacent_iff`: which words stand directly behind a number in some literal.
-/

namespace TaggedUnion

namespace Exponent

theorem scan_ne_none {mark d : Char} {rest : List Char} (hmark : mark = 'e' ∨ mark = 'E')
    (hd : d.isDigit) : scan (mark :: d :: rest) ≠ none := by
  have hsign : ¬(d = '+' ∨ d = '-') := by
    rintro (rfl | rfl) <;> exact absurd hd (by decide)
  simp [scan, scanDigits, hmark, hsign, hd]

end Exponent

namespace Numeral

/-- The word may stand directly behind the number: no longer numeral starts there. -/
inductive Adjoins (n : Numeral) : List Char → Prop where
  /-- A number with a sign. -/
  | minus {cs : List Char} : Adjoins n ('-' :: cs)
  /-- A number behind a zero. -/
  | digit {c : Char} {cs : List Char} (hc : c.isDigit) (hint : n.isInteger)
    (hzero : n.whole = ['0']) : Adjoins n (c :: cs)
  /-- A name that starts no exponent, or any name behind an exponent. -/
  | name {c : Char} {cs : List Char} (hname : Text.isNameChars (c :: cs))
    (hexponent : n.exponent = none → c = 'e' ∨ c = 'E' → ∀ d ∈ cs.head?, d.isDigit = false) :
    Adjoins n (c :: cs)

end Numeral

namespace Literal

/-- The number as a token. -/
def numberLexeme (n : Numeral) : Lexeme := ⟨if n.isInteger then .int else .float, n.text⟩

/-- The spellings of numbers and names. -/
inductive IsWord : Lexeme → Prop where
  | number {n : Numeral} (hn : n.IsProper) : IsWord (numberLexeme n)
  | name {text : List Char} (hname : Text.isNameChars text) : IsWord ⟨.name, text⟩

/-- The text has the two tokens, one behind the other and with nothing between them. -/
def Adjacent (text : String) (first second : Lexeme) : Prop :=
  ∃ (before : List Token) (token next : Token) (after : List Token),
    tokenize text = .ok (before ++ token :: next :: after) ∧
      token.lexeme = first ∧ next.lexeme = second ∧ token.span.stop = next.span.start

section Words

variable {n : Numeral} {word : Lexeme} {rest : List Char}

theorem isNameStart_not_digit {c : Char} (h : Text.isNameStart c) : c.isDigit = false :=
  Bool.eq_false_iff.mpr fun hc => by simp [not_isNameStart_of_isDigit hc] at h

/-- Behind a number, a word is no part of a longer numeral. -/
theorem IsWord.adjoins (hword : IsWord word) (hends : n.Ends (word.text ++ rest)) :
    n.Adjoins word.text := by
  cases hword with
  | @number m hm =>
    obtain ⟨c, cs, htext, rfl | hc⟩ := hm.text_eq_cons
    · show n.Adjoins m.text
      rw [htext]
      exact .minus
    · show n.Adjoins m.text
      simp only [numberLexeme, htext, List.cons_append] at hends ⊢
      obtain ⟨hint, hzero⟩ := hends.digit c rfl hc
      exact .digit hc hint hzero
  | @name text hname =>
    cases text with
    | nil => simp [Text.isNameChars] at hname
    | cons c cs =>
      refine .name hname fun hnone hmark d hd => Bool.eq_false_iff.mpr fun hdigit => ?_
      cases cs with
      | nil => cases hd
      | cons e more =>
        cases hd
        exact Exponent.scan_ne_none hmark hdigit (hends.exponent hnone)

/-- A word that is told apart from a number ends it. -/
theorem ends_of_adjoins {cs : List Char} (h : n.Adjoins cs) (hrest : EndsWord rest) :
    n.Ends (cs ++ rest) := by
  have hbehind : ∀ c ∈ rest.head?, c.isDigit = false ∧ c ≠ '+' ∧ c ≠ '-' := by
    intro c hc
    obtain ⟨-, hdigit, -, -, -, hminus, -⟩ := not_word_of_mem_wordEnds c (hrest c hc)
    refine ⟨hdigit, ?_, hminus⟩
    rintro rfl
    exact absurd (hrest '+' hc) (by decide)
  cases h with
  | minus => exact Numeral.Follows.ends (by rintro c ⟨⟩; decide)
  | digit hc hint hzero =>
    refine ⟨fun _ _ _ => ⟨hint, hzero⟩, ?_, fun _ => Exponent.scan_eq_none ?_⟩
    · rintro - d more hsplit
      obtain ⟨rfl, -⟩ := List.cons.inj hsplit
      exact absurd hc (by decide)
    · rintro d ⟨⟩
      constructor <;> rintro rfl <;> exact absurd hc (by decide)
  | @name c cs hname hexponent =>
    obtain ⟨hstart, hcontinue⟩ := Bool.and_eq_true_iff.mp hname
    refine ⟨?_, ?_, fun hnone => Exponent.scan_eq_none_of fun hmark d hd => ?_⟩
    · rintro d ⟨⟩ hdigit
      simp [isNameStart_not_digit hstart] at hdigit
    · rintro - d more hsplit
      obtain ⟨rfl, -⟩ := List.cons.inj hsplit
      exact absurd hstart (by decide)
    · cases cs with
      | nil => exact hbehind d hd
      | cons e more =>
        cases hd
        refine ⟨hexponent hnone hmark d rfl, ?_, ?_⟩ <;> rintro rfl <;>
          exact absurd (List.all_eq_true.mp hcontinue _ List.mem_cons_self) (by decide)

/-- A word is scanned off as a whole where something ends it. -/
theorem IsWord.scans (hword : IsWord word) (hrest : EndsWord rest) : word.Scans rest := by
  cases hword with
  | number hn => exact scans_numeral hn hrest.follows.ends
  | name hname => exact scans_name hname hrest.not_isNameContinue

/-- A word is a literal by itself. -/
theorem IsWord.exists_meaning (hword : IsWord word) (position : Nat) :
    ∃ value, Says (word.token position) value := by
  cases hword with
  | @number n =>
    unfold numberLexeme Lexeme.token
    cases n.isInteger
    · exact ⟨_, .float⟩
    · exact ⟨_, .int⟩
  | name => exact ⟨_, says_bareName⟩

/-- What is scanned as a number is the longest numeral. -/
theorem Scanned.exists_numeral {c : Char} {cs text : List Char} {kind : TokenKind}
    (h : Scanned c cs kind text rest) (hkind : kind = .int ∨ kind = .float) :
    ∃ m : Numeral, m.IsProper ∧ ⟨kind, text⟩ = numberLexeme m ∧ m.Ends rest := by
  cases h with
  | mark _ hmark => rcases hkind with rfl | rfl <;> simp [TokenKind.isMark] at hmark
  | @int m _ hm hint =>
    obtain ⟨hproper, -, hends⟩ := Numeral.scan_eq_some_iff.mp hm
    exact ⟨m, hproper, by rw [numberLexeme, if_pos hint], hends⟩
  | @float m _ hm hfloat =>
    obtain ⟨hproper, -, hends⟩ := Numeral.scan_eq_some_iff.mp hm
    exact ⟨m, hproper, by simp [numberLexeme, hfloat], hends⟩
  | _ => simp at hkind

theorem Scanned.isWord {c : Char} {cs text : List Char} {kind : TokenKind}
    (h : Scanned c cs kind text rest) (hkind : kind = .int ∨ kind = .float ∨ kind = .name) :
    IsWord ⟨kind, text⟩ := by
  rcases or_assoc.mpr hkind with hnumber | rfl
  · obtain ⟨m, hm, hlexeme, -⟩ := h.exists_numeral hnumber
    exact hlexeme ▸ .number hm
  · have hdecodable : Token.IsDecodable ⟨.name, default, text⟩ := nofun
    cases h.isProper hdecodable with
    | mark hmark => exact absurd (isMark_of_mark? hmark) (by decide)
    | name hname => exact .name hname

end Words

section Adjacency

variable {n : Numeral} {first second word : Lexeme}

/-- What stands directly behind a number is no part of a longer one. -/
theorem exists_adjoins_of_adjacent {text : String}
    (hfirst : first.kind = .int ∨ first.kind = .float)
    (hsecond : second.kind = .int ∨ second.kind = .float ∨ second.kind = .name)
    (h : Adjacent text first second) :
    ∃ n : Numeral, n.IsProper ∧ first = numberLexeme n ∧ IsWord second ∧
      n.Adjoins second.text := by
  obtain ⟨before, token, next, after, htokens, rfl, rfl, htouch⟩ := h
  obtain ⟨-, c, behind, rest, -, -, -, hscan, hrest⟩ :=
    (tokenizeFrom_eq_ok_iff.mp htokens).exists_scan rfl
  obtain ⟨front, d, more, last, hsplit, hstart, -, hnext, -⟩ :=
    hrest.exists_scan (show next :: after = [] ++ next :: after from rfl)
  have hfront : front = [] := by
    by_contra hne
    have := Text.byteSize_pos hne
    omega
  have hbehind : rest = next.lexeme.text ++ last := by
    rw [hsplit, hfront, List.nil_append, ← (Token.scan_append hnext).1, Token.lexeme]
  obtain ⟨n, hn, hnumber, hends⟩ := (scanned_of_scan hscan).exists_numeral hfirst
  have hword : IsWord next.lexeme := (scanned_of_scan hnext).isWord hsecond
  exact ⟨n, hn, hnumber, hword, hword.adjoins (hbehind ▸ hends)⟩

/-- The tokens of a list of two items with nothing between them. -/
theorem lexed_touching (hn : n.IsProper) (hword : IsWord word) (h : n.Adjoins word.text) :
    Lexed 0 ('[' :: (n.text ++ (word.text ++ [']'])))
      [Lexeme.token ⟨.bracketOpen, ['[']⟩ 0, (numberLexeme n).token 1,
        word.token (1 + Text.byteSize n.text), Lexeme.token ⟨.bracketClose, [']']⟩
          (1 + Text.byteSize n.text + Text.byteSize word.text)] := by
  have hbracket : EndsWord [']'] := by
    rintro c ⟨⟩
    decide
  have hnumber : (numberLexeme n).Scans (word.text ++ [']']) :=
    scans_numeral hn (ends_of_adjoins h hbracket)
  have hopening : Lexeme.Scans ⟨.bracketOpen, ['[']⟩ (n.text ++ (word.text ++ [']'])) :=
    scans_mark rfl
  have hclosing : Lexeme.Scans ⟨.bracketClose, [']']⟩ [] := scans_mark rfl
  exact hopening.lexed (hnumber.lexed ((hword.scans hbracket).lexed (hclosing.lexed .nil)))

/-- Two tokens between brackets are a list if each of them is a literal. -/
theorem run_pair {opening first second closing : Token} {value value' : Value}
    (hopening : opening.kind = .bracketOpen) (hfirst : Says first value)
    (hsecond : Says second value') (hclosing : closing.kind = .bracketClose) :
    [opening, first, second, closing].foldlM State.step (.value []) =
      .ok (.done ⟨.list [⟨value, first.span⟩, ⟨value', second.span⟩],
        opening.span.merge closing.span⟩) := by
  rw [foldlM_cons_of_steps (.openList hopening (by decide)), foldlM_cons_of_steps (.single hfirst),
    State.complete, foldlM_cons_of_steps (.single hsecond), State.complete,
    foldlM_cons_of_steps (.closeList hclosing)]
  rfl

/-- A number and a word that is told apart from it are the items of a list. -/
theorem exists_adjacent_of_adjoins (hn : n.IsProper) (hword : IsWord word)
    (h : n.Adjoins word.text) :
    ∃ text node, parse text = .ok node ∧ Adjacent text (numberLexeme n) word := by
  have htokens := (congrArg (tokenizeFrom 0) String.toList_ofList).trans
    (tokenizeFrom_eq_ok_iff.mpr (lexed_touching hn hword h))
  obtain ⟨value, hvalue⟩ := (IsWord.number hn).exists_meaning 1
  obtain ⟨value', hvalue'⟩ := hword.exists_meaning (1 + Text.byteSize n.text)
  exact ⟨_, _, parse_eq_ok_iff.mpr
      ⟨_, htokens, run_eq_done_iff.mp (run_pair rfl hvalue hvalue' rfl)⟩,
    [Lexeme.token ⟨.bracketOpen, ['[']⟩ 0], _, _, _, htokens, rfl, rfl, rfl⟩

/-- **Which words stand directly behind a number.** In the texts that are read as literals a word
has nothing between it and the number in front of it exactly if it is no part of a longer numeral:
it is a number with a sign, a number behind a zero, or a name that is no exponent of the number. -/
theorem exists_adjacent_iff (hfirst : first.kind = .int ∨ first.kind = .float)
    (hsecond : second.kind = .int ∨ second.kind = .float ∨ second.kind = .name) :
    (∃ text node, parse text = .ok node ∧ Adjacent text first second) ↔
      ∃ n : Numeral, n.IsProper ∧ first = numberLexeme n ∧ IsWord second ∧
        n.Adjoins second.text := by
  constructor
  · rintro ⟨text, node, -, h⟩
    exact exists_adjoins_of_adjacent hfirst hsecond h
  · rintro ⟨n, hn, rfl, hword, h⟩
    exact exists_adjacent_of_adjoins hn hword h

/-- A name stands directly behind a zero, as in `[0x1]`. -/
theorem exists_adjacent_zero_name :
    ∃ text node, parse text = .ok node ∧ Adjacent text ⟨.int, ['0']⟩ ⟨.name, ['x', '1']⟩ := by
  have hzero : Numeral.IsProper ⟨false, ['0'], [], none⟩ := ⟨.inl rfl, nofun, nofun⟩
  have hadjoins : Numeral.Adjoins ⟨false, ['0'], [], none⟩ ['x', '1'] :=
    .name (by decide) fun _ hmark => absurd hmark (by decide)
  exact (exists_adjacent_iff (.inl rfl) (.inr (.inr rfl))).mpr
    ⟨_, hzero, rfl, .name (by decide), hadjoins⟩

/-- Numbers are not kept apart from the words behind them: `[1a]` is read as a list. -/
theorem not_apart_of_parse_eq_ok :
    ¬∀ (text : String) (node : Node) (before after : List Token) (number word : Token),
      parse text = .ok node → tokenize text = .ok (before ++ number :: word :: after) →
        (number.kind = .int ∨ number.kind = .float) →
          (word.kind = .int ∨ word.kind = .float ∨ word.kind = .name) →
            number.span.stop ≠ word.span.start := by
  intro h
  exact h "[1a]" ⟨.list [⟨.int "1", ⟨1, 2⟩⟩, ⟨.enum "a", ⟨2, 3⟩⟩], ⟨0, 4⟩⟩
    [⟨.bracketOpen, ⟨0, 1⟩, ['[']⟩] [⟨.bracketClose, ⟨3, 4⟩, [']']⟩] ⟨.int, ⟨1, 2⟩, ['1']⟩
    ⟨.name, ⟨2, 3⟩, ['a']⟩ (by cbv) (by cbv) (.inl rfl) (.inr (.inr rfl)) rfl

end Adjacency

end Literal

end TaggedUnion
