import TaggedUnion.Proofs.Literal.Layout

/-!
# What is scanned

The tokens of a text are spelled as their kinds ask, so they can be laid out again. The exception
are strings with a bad escape: they are scanned, and refused when they are decoded.

* `quotes_of_spells`: a string that is scanned and decoded is written between quotes.
* `Scanned`: the ways in which a token is scanned off a text.
* `Lexed.isProper`: the spelling of each token of a text.
* `Lexed.exists_scan`: where each token stands, and what follows it.
-/

namespace TaggedUnion.Literal

/-! ## Strings -/

section Strings

variable {text contents part rest : List Char} {c : Char}

theorem of_scanQuoted_cons (hquote : c ≠ '"') (hslash : c ≠ '\\')
    (h : scanQuoted (c :: text) = .ok (c :: part, rest)) :
    c ≠ '\n' ∧ scanQuoted text = .ok (part, rest) := by
  rw [scanQuoted.eq_def] at h
  simp only [hquote, hslash, ↓reduceIte] at h
  split at h
  · simp at h
  · rename_i hline
    refine ⟨hline, ?_⟩
    split at h
    · simp at h
    · rename_i hscan
      cases h
      exact hscan

theorem of_scanQuoted_slash (h : scanQuoted ('\\' :: c :: text) = .ok ('\\' :: c :: part, rest)) :
    scanQuoted text = .ok (part, rest) := by
  rw [scanQuoted.eq_def] at h
  simp only [Char.reduceEq, ↓reduceIte] at h
  split at h
  · simp at h
  · split at h
    · simp at h
    · rename_i hscan
      cases h
      exact hscan

/-- What is scanned as a string ends with a quote. -/
theorem exists_of_scanQuoted {cs : List Char} (h : scanQuoted cs = .ok (text, rest)) :
    ∃ part, text = part ++ ['"'] := by
  fun_induction scanQuoted cs generalizing text with
  | case2 =>
    cases h
    exact ⟨[], rfl⟩
  | case7 d _ _ _ _ hinner _ _ ih =>
    cases h
    obtain ⟨part, rfl⟩ := ih hinner
    exact ⟨'\\' :: d :: part, rfl⟩
  | case9 c _ _ _ _ _ _ hinner ih =>
    cases h
    obtain ⟨part, rfl⟩ := ih hinner
    exact ⟨c :: part, rfl⟩
  | _ => simp at h

/-- What is scanned as a string and spells something has no bare quote and no newline in it. -/
theorem quotes_of_spells (h : Spells text contents)
    (hscan : scanQuoted (text ++ '"' :: rest) = .ok (text ++ ['"'], rest)) :
    Quotes text contents := by
  induction h with
  | nil => exact .nil
  | @plain c text contents hc _ ih =>
    by_cases hquote : c = '"'
    · subst hquote
      rw [scanQuoted.eq_def] at hscan
      simp at hscan
    · obtain ⟨hline, hscan⟩ := of_scanQuoted_cons hquote hc hscan
      exact .plain hquote hc hline (ih hscan)
  | @escape sequence c text contents hc _ ih =>
    refine .escape hc (ih ?_)
    cases hc with
    | letter => exact of_scanQuoted_slash hscan
    | code hw hx hy hz =>
      have hplain : ∀ {d : Char} {n : Nat} {text part : List Char}, Text.hexValue? d = some n →
          scanQuoted (d :: text) = .ok (d :: part, rest) → scanQuoted text = .ok (part, rest) :=
        fun hd h =>
          (of_scanQuoted_cons (plain_of_hexValue? hd).1 (plain_of_hexValue? hd).2.1 h).2
      exact hplain hz (hplain hy (hplain hx (hplain hw (of_scanQuoted_slash hscan))))

end Strings

/-! ## Tokens -/

/-- The token is no string, or one that can be decoded. -/
def Token.IsDecodable (token : Token) : Prop :=
  token.kind = .string → ∃ contents, Spells (token.text.drop 1).dropLast contents

/-- The ways in which a token is scanned off a text. -/
inductive Scanned (c : Char) (cs : List Char) : TokenKind → List Char → List Char → Prop where
  | mark {kind : TokenKind} (hmark : mark? c = some kind) (hkind : kind.isMark) :
    Scanned c cs kind [c] cs
  | name (hstart : Text.isNameStart c) :
    Scanned c cs .name (c :: cs.takeWhile Text.isNameContinue) (cs.dropWhile Text.isNameContinue)
  | string {part rest : List Char} (hquote : c = '"')
    (hscan : scanQuoted cs = .ok (part ++ ['"'], rest)) :
    Scanned c cs .string ('"' :: (part ++ ['"'])) rest
  | int {n : Numeral} {rest : List Char} (hn : Numeral.scan (c :: cs) = some (n, rest))
    (hint : n.isInteger) : Scanned c cs .int n.text rest
  | float {n : Numeral} {rest : List Char} (hn : Numeral.scan (c :: cs) = some (n, rest))
    (hfloat : n.isInteger = false) : Scanned c cs .float n.text rest

section Tokens

variable {c : Char} {cs text rest : List Char} {kind : TokenKind}

theorem isMark_of_mark? (h : mark? c = some kind) : kind.isMark := by
  simp only [mark?] at h
  split_ifs at h <;> cases h <;> rfl

theorem scanned_of_scan (h : Token.scan c cs = .ok (kind, text, rest)) :
    Scanned c cs kind text rest := by
  unfold Token.scan at h
  split at h
  · rename_i hmark
    cases h
    exact .mark hmark (isMark_of_mark? hmark)
  · split at h
    · rename_i hstart
      cases h
      exact .name hstart
    · split at h
      · rename_i hquote
        split at h
        · simp at h
        · rename_i hscan
          cases h
          obtain ⟨part, rfl⟩ := exists_of_scanQuoted hscan
          subst hquote
          exact .string rfl hscan
      · split at h
        · rename_i n after hn
          cases h
          by_cases hint : n.isInteger
          · rw [if_pos hint]
            exact .int hn hint
          · rw [if_neg hint]
            exact .float hn (Bool.eq_false_iff.mpr hint)
        · simp at h

/-- What is scanned is spelled as its kind asks, except for the escapes in a string. -/
theorem Scanned.isProper {span : Span} (h : Scanned c cs kind text rest)
    (hdecodable : Token.IsDecodable ⟨kind, span, text⟩) : Lexeme.IsProper ⟨kind, text⟩ := by
  cases h with
  | mark hmark => exact .mark hmark
  | name hstart =>
    refine .name ?_
    simp only [Text.isNameChars, hstart, Bool.true_and]
    exact List.all_takeWhile
  | @string part _ _ hscan =>
    obtain ⟨contents, hspells⟩ := hdecodable rfl
    have hspells : Spells part contents := by simpa using hspells
    have hcs := scanQuoted_append hscan
    rw [List.append_assoc, List.singleton_append] at hcs
    exact .string (quotes_of_spells hspells (hcs ▸ hscan))
  | int hn hint => exact .int (Numeral.scan_eq_some_iff.mp hn).1 hint
  | float hn hfloat => exact .float (Numeral.scan_eq_some_iff.mp hn).1 hfloat

/-- **Tokens are spelled as their kinds ask.** -/
theorem Lexed.isProper {position : Nat} {tokens : List Token} (h : Lexed position cs tokens) :
    ∀ token ∈ tokens, token.IsDecodable → token.lexeme.IsProper := by
  induction h with
  | nil => nofun
  | ignored _ _ ih => exact ih
  | comment _ ih => exact ih
  | token _ _ hscan _ ih =>
    exact List.forall_mem_cons.mpr ⟨(scanned_of_scan hscan).isProper, ih⟩

/-- Each token is scanned where it stands, and the tokens behind it are those of the rest. -/
theorem Lexed.exists_scan {position : Nat} {tokens before after : List Token} {token : Token}
    (h : Lexed position cs tokens) (htokens : tokens = before ++ token :: after) :
    ∃ front c behind rest, cs = front ++ c :: behind ∧
      token.span.start = position + Text.byteSize front ∧
      token.span.stop = token.span.start + Text.byteSize token.text ∧
      Token.scan c behind = .ok (token.kind, token.text, rest) ∧
      Lexed token.span.stop rest after := by
  induction h generalizing before with
  | nil => simp at htokens
  | @ignored position d _ _ hd _ ih =>
    obtain ⟨front, c, behind, rest, rfl, hstart, hstop⟩ := ih htokens
    refine ⟨d :: front, c, behind, rest, rfl, ?_, hstop⟩
    rw [hstart, Text.byteSize_cons, utf8Size_of_isIgnored hd, Nat.add_assoc]
  | @comment position line _ _ ih =>
    obtain ⟨front, c, behind, rest, hsplit, hstart, hstop⟩ := ih htokens
    have hhash : ('#').utf8Size = 1 := rfl
    refine ⟨_, c, behind, rest, comment_split hsplit, ?_, hstop⟩
    rw [hstart, Text.byteSize_cons, Text.byteSize_append, hhash]
    omega
  | @token position c behind text rest kind others _ _ hscan hrest ih =>
    cases before with
    | nil =>
      obtain ⟨rfl, rfl⟩ := List.cons.inj htokens
      exact ⟨[], c, behind, rest, rfl, rfl, rfl, hscan, hrest⟩
    | cons first before =>
      obtain ⟨-, htokens⟩ := List.cons.inj htokens
      obtain ⟨front, d, behind', rest', rfl, hstart, hstop⟩ := ih htokens
      refine ⟨text ++ front, d, behind', rest', ?_, ?_, hstop⟩
      · rw [← (Token.scan_append hscan).1, List.append_assoc]
      · rw [hstart, Text.byteSize_append, Nat.add_assoc]

end Tokens

end TaggedUnion.Literal
