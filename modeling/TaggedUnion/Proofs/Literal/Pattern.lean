import TaggedUnion.Proofs.Decimal.Longest
import TaggedUnion.Proofs.Literal.Scanning

/-!
# The patterns of tokens

The words of each kind of token form a regular language, and so does what is skipped.

* `TokenKind.pattern`, `skipped`: these languages, written as regular expressions.
* `mem_integer_iff`, `mem_decimal_iff`: the numerals of each pattern.
* `mem_quoted_of_scanQuoted`, `scanQuoted_of_mem_quoted`: what is scanned as a string.
* `mem_pattern_of_scan`: what is scanned as a token matches the pattern of its kind.
* `isCovered_of_mem_pattern`: where a word of a pattern stands, a token is scanned that covers it.
-/

open scoped Computability

namespace TaggedUnion.Literal

/-! ## The languages -/

namespace Pattern

/-- One character of a class. -/
def oneOf (p : Char → Bool) : Language Char := {word | ∃ c, p c ∧ word = [c]}

/-- One character of a class, and more of them. -/
def run (p : Char → Bool) : Language Char := oneOf p * (oneOf p)∗

/-- A word of a language, or nothing. -/
def optional (language : Language Char) : Language Char := 1 + language

/-- A zero, or a digit that is no zero, and more digits. -/
def unsigned : Language Char :=
  oneOf (· = '0') + oneOf (fun c => c.isDigit && c ≠ '0') * (oneOf Char.isDigit)∗

/-- A whole number, with or without a minus sign. -/
def integer : Language Char := optional (oneOf (· = '-')) * unsigned

/-- A point and digits. -/
def fraction : Language Char := oneOf (· = '.') * run Char.isDigit

/-- The letter of an exponent, a sign or none, and digits. -/
def exponent : Language Char :=
  oneOf (fun c => c = 'e' || c = 'E') *
    (optional (oneOf fun c => c = '+' || c = '-') * run Char.isDigit)

/-- A number with a fraction, with an exponent, or with both. -/
def decimal : Language Char := integer * (fraction * optional exponent + exponent)

/-- The characters of a string that stand for themselves. -/
def isPlain (c : Char) : Bool := c ≠ '"' && c ≠ '\\' && c ≠ '\n'

/-- Plain characters and pairs of a backslash and a character, and the closing quote. -/
def quoted : Language Char :=
  (oneOf isPlain + oneOf (· = '\\') * oneOf (· ≠ '\n'))∗ * oneOf (· = '"')

/-- A run of blanks and commas. -/
def separators : Language Char := run isIgnored

/-- A comment, without the end of its line. -/
def comment : Language Char := oneOf (· = '#') * (oneOf (· ≠ '\n'))∗

end Pattern

/-- The words of a kind of token. -/
def TokenKind.pattern : TokenKind → Language Char
  | .braceOpen => Pattern.oneOf (· = '\x7b')
  | .braceClose => Pattern.oneOf (· = '\x7d')
  | .bracketOpen => Pattern.oneOf (· = '[')
  | .bracketClose => Pattern.oneOf (· = ']')
  | .colon => Pattern.oneOf (· = ':')
  | .name => Pattern.oneOf Text.isNameStart * (Pattern.oneOf Text.isNameContinue)∗
  | .int => Pattern.integer
  | .float => Pattern.decimal
  | .string => Pattern.oneOf (· = '"') * Pattern.quoted

/-- The words that are skipped. -/
def skipped : Language Char := Pattern.separators + Pattern.comment

namespace Pattern

/-! ## The words of a language -/

section Words

variable {p : Char → Bool} {l m : Language Char} {word : List Char}

theorem mem_oneOf : word ∈ oneOf p ↔ ∃ c, p c ∧ word = [c] := .rfl

theorem mem_oneOf_eq {c : Char} : word ∈ oneOf (· = c) ↔ word = [c] := by
  simp [mem_oneOf]

theorem mem_oneOf_mul : word ∈ oneOf p * l ↔ ∃ c cs, word = c :: cs ∧ p c ∧ cs ∈ l := by
  rw [Language.mem_mul]
  constructor
  · rintro ⟨_, ⟨c, hc, rfl⟩, cs, hcs, rfl⟩
    exact ⟨c, cs, rfl, hc, hcs⟩
  · rintro ⟨c, cs, rfl, hc, hcs⟩
    exact ⟨[c], ⟨c, hc, rfl⟩, cs, hcs, rfl⟩

theorem mem_optional_mul : word ∈ optional l * m ↔ word ∈ m ∨ word ∈ l * m := by
  rw [optional, add_mul, one_mul]
  rfl

theorem mem_mul_optional : word ∈ l * optional m ↔ word ∈ l ∨ word ∈ l * m := by
  rw [optional, mul_add, mul_one]
  rfl

theorem mem_kstar_oneOf : word ∈ (oneOf p)∗ ↔ ∀ c ∈ word, p c := by
  constructor
  · intro h c hc
    obtain ⟨words, rfl, hwords⟩ := Language.mem_kstar.mp h
    obtain ⟨word, hword, hc⟩ := List.mem_flatten.mp hc
    obtain ⟨d, hd, rfl⟩ := hwords word hword
    rwa [List.mem_singleton.mp hc]
  · intro h
    refine Language.mem_kstar.mpr ⟨word.map ([·]), (List.flatMap_singleton' word).symm,
      fun part hpart => ?_⟩
    obtain ⟨c, hc, rfl⟩ := List.mem_map.mp hpart
    exact ⟨c, h c hc, rfl⟩

theorem mem_run : word ∈ run p ↔ word ≠ [] ∧ ∀ c ∈ word, p c := by
  simp only [run, mem_oneOf_mul, mem_kstar_oneOf]
  constructor
  · rintro ⟨c, cs, rfl, hc, hcs⟩
    exact ⟨List.cons_ne_nil c cs, List.forall_mem_cons.mpr ⟨hc, hcs⟩⟩
  · rintro ⟨hne, hword⟩
    obtain ⟨c, cs, rfl⟩ := List.exists_cons_of_ne_nil hne
    exact ⟨c, cs, rfl, List.forall_mem_cons.mp hword⟩

/-- A repetition may go on with one more word in front. -/
theorem append_mem_kstar_mul {part : List Char} (hpart : part ∈ l) (h : word ∈ l∗ * m) :
    part ++ word ∈ l∗ * m := by
  obtain ⟨front, hfront, rest, hrest, rfl⟩ := Language.mem_mul.mp h
  have hword : part ++ front ∈ l∗ :=
    Set.mem_of_mem_of_subset (Language.append_mem_mul hpart hfront) (mul_kstar_le_kstar (a := l))
  rw [← List.append_assoc]
  exact Language.append_mem_mul hword hrest

end Words

/-! ## Numbers -/

section Numbers

variable {word : List Char}

theorem mem_unsigned_iff : word ∈ unsigned ↔
    word = ['0'] ∨ ∃ c cs, word = c :: cs ∧ c ≠ '0' ∧ ∀ d ∈ c :: cs, d.isDigit := by
  have hmore : word ∈ oneOf (fun c => c.isDigit && c ≠ '0') * (oneOf Char.isDigit)∗ ↔
      ∃ c cs, word = c :: cs ∧ c ≠ '0' ∧ ∀ d ∈ c :: cs, d.isDigit := by
    simp only [mem_oneOf_mul, mem_kstar_oneOf, Bool.and_eq_true, decide_eq_true_eq,
      List.forall_mem_cons, and_assoc, and_left_comm]
  exact or_congr mem_oneOf_eq hmore

theorem mem_integer_iff_sign : word ∈ integer ↔
    ∃ (negative : Bool) (whole : List Char), whole ∈ unsigned ∧
      word = (if negative then ['-'] else []) ++ whole := by
  rw [integer, mem_optional_mul, mem_oneOf_mul, Bool.exists_bool]
  simp [and_comm]

theorem mem_exponent_iff : word ∈ exponent ↔ ∃ e : Exponent, e.IsProper ∧ e.text = word := by
  simp only [exponent, mem_oneOf_mul, mem_optional_mul, mem_run, Bool.or_eq_true,
    decide_eq_true_eq]
  constructor
  · rintro ⟨mark, _, rfl, hmark, ⟨hne, hdigits⟩ | ⟨sign, digits, rfl, hsign, hne, hdigits⟩⟩
    · exact ⟨⟨mark, none, _⟩, ⟨hmark, by simp, hne, hdigits⟩, rfl⟩
    · exact ⟨⟨mark, some sign, digits⟩, ⟨hmark, by rintro _ ⟨⟩; exact hsign, hne, hdigits⟩, rfl⟩
  · rintro ⟨⟨mark, sign, digits⟩, ⟨hmark, hsign, hne, hdigits⟩, rfl⟩
    refine ⟨mark, _, rfl, hmark, ?_⟩
    cases sign with
    | none => exact .inl ⟨hne, hdigits⟩
    | some sign => exact .inr ⟨sign, digits, rfl, hsign sign rfl, hne, hdigits⟩

theorem mem_fraction_iff : word ∈ fraction ↔
    ∃ digits, digits ≠ [] ∧ (∀ c ∈ digits, c.isDigit) ∧ Numeral.fractionText digits = word := by
  simp only [fraction, mem_oneOf_mul, mem_run, decide_eq_true_eq]
  constructor
  · rintro ⟨_, digits, rfl, rfl, hne, hdigits⟩
    exact ⟨digits, hne, hdigits, by simp [Numeral.fractionText, hne]⟩
  · rintro ⟨digits, hne, hdigits, rfl⟩
    exact ⟨'.', digits, by simp [Numeral.fractionText, hne], rfl, hne, hdigits⟩

/-- The characters of a numeral, part by part. -/
theorem text_eq (n : Numeral) : n.text = ((if n.negative then ['-'] else []) ++ n.whole) ++
    (Numeral.fractionText n.fraction ++ Numeral.exponentText n.exponent) := by
  simp [Numeral.text, Numeral.fractionText, Numeral.exponentText]

theorem mem_integer_iff : word ∈ integer ↔
    ∃ n : Numeral, n.IsProper ∧ n.isInteger ∧ n.text = word := by
  rw [mem_integer_iff_sign]
  constructor
  · rintro ⟨negative, whole, hwhole, rfl⟩
    exact ⟨⟨negative, whole, [], none⟩, ⟨mem_unsigned_iff.mp hwhole, by simp, by simp⟩, rfl,
      by simp [Numeral.text]⟩
  · rintro ⟨⟨negative, whole, fraction, exponent⟩, hn, hint, rfl⟩
    simp only [Numeral.isInteger, Bool.and_eq_true, List.isEmpty_iff,
      Option.isNone_iff_eq_none] at hint
    obtain ⟨rfl, rfl⟩ := hint
    exact ⟨negative, whole, mem_unsigned_iff.mpr hn.whole, by simp [Numeral.text]⟩

/-- What makes a number a decimal one: digits behind a point, an exponent, or both. -/
theorem mem_fractional_iff : word ∈ fraction * optional exponent + exponent ↔
    ∃ (digits : List Char) (exponent? : Option Exponent), (∀ c ∈ digits, c.isDigit) ∧
      (∀ e ∈ exponent?, e.IsProper) ∧ (digits = [] → exponent? ≠ none) ∧
      Numeral.fractionText digits ++ Numeral.exponentText exponent? = word := by
  have hparts : word ∈ fraction * optional exponent + exponent ↔
      word ∈ fraction ∨ word ∈ fraction * exponent ∨ word ∈ exponent := by
    rw [← or_assoc, ← mem_mul_optional]
    rfl
  rw [hparts]
  constructor
  · rintro (h | h | h)
    · obtain ⟨digits, hne, hdigits, rfl⟩ := mem_fraction_iff.mp h
      exact ⟨digits, none, hdigits, by simp, fun hnil => absurd hnil hne, List.append_nil _⟩
    · obtain ⟨_, hfraction, _, hexponent, rfl⟩ := Language.mem_mul.mp h
      obtain ⟨digits, -, hdigits, rfl⟩ := mem_fraction_iff.mp hfraction
      obtain ⟨e, he, rfl⟩ := mem_exponent_iff.mp hexponent
      exact ⟨digits, some e, hdigits, by simpa using he, by simp, rfl⟩
    · obtain ⟨e, he, rfl⟩ := mem_exponent_iff.mp h
      exact ⟨[], some e, by simp, by simpa using he, by simp, rfl⟩
  · rintro ⟨digits, exponent?, hdigits, hexponent, hsome, rfl⟩
    have hfraction : digits ≠ [] → Numeral.fractionText digits ∈ fraction :=
      fun hne => mem_fraction_iff.mpr ⟨digits, hne, hdigits, rfl⟩
    cases exponent? with
    | none =>
      rw [Numeral.exponentText, Option.map_none, Option.getD_none, List.append_nil]
      exact .inl (hfraction fun hnil => hsome hnil rfl)
    | some e =>
      have he : e.text ∈ exponent := mem_exponent_iff.mpr ⟨e, hexponent e rfl, rfl⟩
      by_cases hnil : digits = []
      · subst hnil
        exact .inr (.inr he)
      · exact .inr (.inl (Language.append_mem_mul (hfraction hnil) he))

theorem mem_decimal_iff : word ∈ decimal ↔
    ∃ n : Numeral, n.IsProper ∧ n.isInteger = false ∧ n.text = word := by
  have hdecimal : ∀ {digits : List Char} {exponent? : Option Exponent},
      (digits.isEmpty && exponent?.isNone) = false ↔ (digits = [] → exponent? ≠ none) := by
    simp [Option.isSome_iff_ne_none]
  rw [decimal, Language.mem_mul]
  constructor
  · rintro ⟨_, hfront, _, hback, rfl⟩
    obtain ⟨negative, whole, hwhole, rfl⟩ := mem_integer_iff_sign.mp hfront
    obtain ⟨digits, exponent?, hdigits, hexponent, hsome, rfl⟩ := mem_fractional_iff.mp hback
    exact ⟨⟨negative, whole, digits, exponent?⟩,
      ⟨mem_unsigned_iff.mp hwhole, hdigits, hexponent⟩, hdecimal.mpr hsome, text_eq _⟩
  · rintro ⟨⟨negative, whole, digits, exponent?⟩, ⟨hwhole, hdigits, hexponent⟩, hfloat, rfl⟩
    rw [text_eq]
    exact ⟨_, mem_integer_iff_sign.mpr ⟨negative, whole, mem_unsigned_iff.mpr hwhole, rfl⟩, _,
      mem_fractional_iff.mpr ⟨digits, exponent?, hdigits, hexponent, hdecimal.mp hfloat, rfl⟩, rfl⟩

end Numbers

/-! ## Strings -/

section Strings

variable {word rest : List Char}

theorem isPlain_iff {c : Char} : isPlain c ↔ c ≠ '"' ∧ c ≠ '\\' ∧ c ≠ '\n' := by
  simp [isPlain, and_assoc]

/-- A string ends at the first quote that is not behind a backslash of its own. -/
theorem scanQuoted_of_mem_quoted (h : word ∈ quoted) (rest : List Char) :
    scanQuoted (word ++ rest) = .ok (word, rest) := by
  obtain ⟨_, hbody, _, hquote, rfl⟩ := Language.mem_mul.mp h
  obtain ⟨parts, rfl, hparts⟩ := Language.mem_kstar.mp hbody
  obtain rfl := mem_oneOf_eq.mp hquote
  clear h hbody
  induction parts with
  | nil =>
    rw [scanQuoted.eq_def]
    rfl
  | cons part parts ih =>
    obtain ⟨hpart, hparts⟩ := List.forall_mem_cons.mp hparts
    have hrest := ih hparts
    rw [List.flatten_cons, List.append_assoc, List.append_assoc, ← List.append_assoc parts.flatten]
    rcases hpart with ⟨c, hc, rfl⟩ | hpair
    · obtain ⟨hquote, hslash, hline⟩ := isPlain_iff.mp hc
      exact scanQuoted_cons hquote hslash hline hrest
    · obtain ⟨slash, _, rfl, hslash, d, hd, rfl⟩ := mem_oneOf_mul.mp hpair
      obtain rfl : slash = '\\' := of_decide_eq_true hslash
      exact scanQuoted_slash (of_decide_eq_true hd) hrest

theorem mem_quoted_of_scanQuoted {cs : List Char} (h : scanQuoted cs = .ok (word, rest)) :
    word ∈ quoted := by
  fun_induction scanQuoted cs generalizing word with
  | case2 =>
    cases h
    exact Language.append_mem_mul (Language.nil_mem_kstar _) ⟨'"', rfl, rfl⟩
  | case7 d _ hd _ _ hinner _ _ ih =>
    cases h
    exact append_mem_kstar_mul
      (.inr (mem_oneOf_mul.mpr ⟨'\\', [d], rfl, rfl, mem_oneOf.mpr ⟨d, by simpa using hd, rfl⟩⟩))
      (ih hinner)
  | case9 c _ hquote hline hslash _ _ hinner ih =>
    cases h
    exact append_mem_kstar_mul (.inl ⟨c, isPlain_iff.mpr ⟨hquote, hslash, hline⟩, rfl⟩) (ih hinner)
  | _ => simp at h

end Strings

end Pattern

/-! ## Tokens -/

section Tokens

open Pattern

variable {c : Char} {cs text word rest : List Char} {kind : TokenKind}

theorem mem_pattern_of_mark (h : mark? c = some kind) : [c] ∈ kind.pattern := by
  simp only [mark?] at h
  split_ifs at h with h₁ h₂ h₃ h₄ h₅ <;> cases h <;> subst c <;> exact mem_oneOf_eq.mpr rfl

/-- **What is scanned as a token matches the pattern of its kind.** -/
theorem mem_pattern_of_scan (h : Token.scan c cs = .ok (kind, text, rest)) :
    text ∈ kind.pattern := by
  cases scanned_of_scan h with
  | mark hmark => exact mem_pattern_of_mark hmark
  | name hstart => exact mem_oneOf_mul.mpr ⟨c, _, rfl, hstart, mem_kstar_oneOf.mpr mem_takeWhile⟩
  | string _ hscan => exact mem_oneOf_mul.mpr ⟨'"', _, rfl, rfl, mem_quoted_of_scanQuoted hscan⟩
  | int hn hint => exact mem_integer_iff.mpr ⟨_, (Numeral.scan_eq_some_iff.mp hn).1, hint, rfl⟩
  | float hn hfloat =>
    exact mem_decimal_iff.mpr ⟨_, (Numeral.scan_eq_some_iff.mp hn).1, hfloat, rfl⟩

/-- Where the word stands in front of the rest, a token is scanned that covers it. -/
def IsCovered (word rest : List Char) : Prop :=
  ∃ (lexeme : Lexeme) (after : List Char), lexeme.Scans after ∧
    lexeme.text ++ after = word ++ rest ∧ word.length ≤ lexeme.text.length

/-- **The longest word is scanned.** Wherever a word of a pattern stands, a token is scanned that
covers it. -/
theorem isCovered_of_mem_pattern (h : word ∈ kind.pattern) (rest : List Char) :
    IsCovered word rest := by
  have hmark : ∀ {c : Char} {kind : TokenKind}, mark? c = some kind → word ∈ oneOf (· = c) →
      IsCovered word rest := by
    intro c kind hmark hword
    obtain rfl := mem_oneOf_eq.mp hword
    exact ⟨⟨kind, [c]⟩, rest, scans_mark hmark, rfl, Nat.le_refl _⟩
  have hnumeral : ∀ {n : Numeral}, n.IsProper → n.text = word → IsCovered word rest := by
    rintro n hn rfl
    obtain ⟨m, after, hscan, hle⟩ := Numeral.exists_scan_of_isProper hn rest
    obtain ⟨hm, htext, hends⟩ := Numeral.scan_eq_some_iff.mp hscan
    exact ⟨_, after, scans_numeral hm hends, htext, hle⟩
  cases kind with
  | braceOpen => exact hmark rfl h
  | braceClose => exact hmark rfl h
  | bracketOpen => exact hmark rfl h
  | bracketClose => exact hmark rfl h
  | colon => exact hmark rfl h
  | name =>
    obtain ⟨c, cs, rfl, hstart, hcs⟩ := mem_oneOf_mul.mp h
    have hname : Text.isNameChars (c :: (cs ++ rest.takeWhile Text.isNameContinue)) := by
      rw [Text.isNameChars, hstart, Bool.true_and, List.all_eq_true]
      exact List.forall_mem_append.mpr ⟨mem_kstar_oneOf.mp hcs, mem_takeWhile⟩
    exact ⟨_, rest.dropWhile Text.isNameContinue, scans_name hname head?_dropWhile, by simp,
      by simp⟩
  | int =>
    obtain ⟨n, hn, -, htext⟩ := mem_integer_iff.mp h
    exact hnumeral hn htext
  | float =>
    obtain ⟨n, hn, -, htext⟩ := mem_decimal_iff.mp h
    exact hnumeral hn htext
  | string =>
    obtain ⟨c, text, rfl, hquote, htext⟩ := mem_oneOf_mul.mp h
    obtain rfl : c = '"' := of_decide_eq_true hquote
    exact ⟨⟨.string, '"' :: text⟩, rest, scans_string (scanQuoted_of_mem_quoted htext rest), rfl,
      Nat.le_refl _⟩

end Tokens

end TaggedUnion.Literal
