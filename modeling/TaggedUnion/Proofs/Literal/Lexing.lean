import TaggedUnion.Literal.Lexer
import TaggedUnion.Proofs.Decimal.Spelling
import TaggedUnion.Outcome
import TaggedUnion.Proofs.Text.Bytes

/-!
# Tokens of a part of a text

A token does not depend on the text in front of it, and of the text behind it only on where it
stops. So the part of a text from one token to another has the same tokens by itself.

* `Token.scan_truncate`: a token is scanned the same if less follows it.
* `Lexed`: the texts that split into given tokens.
* `Lexed.split`, `Lexed.skip`: a split of the tokens splits the text.
* `Lexed.shift`: a text has the same tokens at another position, moved.
* `Lexed.placed`: the tokens of a text do not overlap and are in order.
-/

namespace TaggedUnion

/-! ## Scanning with less behind -/

section Truncate

variable {before after : List Char}

/-- Where a run of characters stops, the text behind may be cut off. -/
theorem span_truncate {p : Char → Bool} {cs : List Char}
    (h : cs.dropWhile p = before ++ after) :
    ∃ part, cs = part ++ after ∧ part.takeWhile p = cs.takeWhile p ∧ part.dropWhile p = before := by
  induction cs with
  | nil =>
    obtain ⟨rfl, rfl⟩ := List.append_eq_nil_iff.mp h.symm
    exact ⟨[], rfl, rfl, rfl⟩
  | cons c cs ih =>
    by_cases hc : p c
    · rw [List.dropWhile_cons_of_pos hc] at h
      obtain ⟨part, rfl, htake, hdrop⟩ := ih h
      exact ⟨c :: part, rfl, by simp [hc, htake], by simp [hc, hdrop]⟩
    · rw [List.dropWhile_cons_of_neg hc] at h
      refine ⟨before, h, ?_⟩
      cases before with
      | nil => simp [hc]
      | cons d before =>
        obtain ⟨rfl, rfl⟩ := List.cons.inj h
        simp [hc]

namespace Exponent

/-- More text behind does not undo an exponent. -/
theorem scanDigits_isSome_append {mark : Char} {sign : Option Char}
    (h : (scanDigits mark sign before).isSome) :
    (scanDigits mark sign (before ++ after)).isSome := by
  cases before with
  | nil => simp [scanDigits] at h
  | cons c before =>
    by_cases hc : c.isDigit <;> simp_all [scanDigits]

theorem scan_isSome_append (h : (scan before).isSome) : (scan (before ++ after)).isSome := by
  unfold scan at h
  split at h
  · simp at h
  · rename_i mark cs
    split at h
    · rename_i hmark
      split at h
      · simp at h
      · rename_i sign rest
        split at h
        · rename_i hsign
          simpa [scan, hmark, hsign] using scanDigits_isSome_append h
        · rename_i hsign
          exact (by simpa [scan, hmark, hsign] using scanDigits_isSome_append h)
    · simp at h

theorem scan_eq_none_of_append (h : scan (before ++ after) = none) : scan before = none := by
  cases hscan : scan before with
  | none => rfl
  | some read =>
    have : (scan (before ++ after)).isSome := scan_isSome_append (by rw [hscan]; rfl)
    simp [h] at this

end Exponent

namespace Numeral

/-- What does not go on with a numeral does not do so either if less follows. -/
theorem Ends.left {n : Numeral} (h : n.Ends (before ++ after)) : n.Ends before where
  digit c hc := h.digit c (by rw [List.head?_append, hc]; rfl)
  point hint c more hbefore := h.point hint c (more ++ after) (by rw [hbefore]; rfl)
  exponent hnone := Exponent.scan_eq_none_of_append (h.exponent hnone)

theorem scan_truncate {cs : List Char} {n : Numeral} (h : scan cs = some (n, before ++ after)) :
    ∃ part, cs = part ++ after ∧ scan part = some (n, before) := by
  obtain ⟨hn, rfl, hends⟩ := scan_eq_some_iff.mp h
  exact ⟨n.text ++ before, by simp, scan_eq_some_iff.mpr ⟨hn, rfl, hends.left⟩⟩

end Numeral

namespace Literal

theorem scanQuoted_truncate {cs text : List Char}
    (h : scanQuoted cs = .ok (text, before ++ after)) :
    ∃ part, cs = part ++ after ∧ scanQuoted part = .ok (text, before) := by
  fun_induction scanQuoted cs generalizing text with
  | case2 rest =>
    cases h
    exact ⟨'"' :: before, rfl, by rw [scanQuoted.eq_def]; rfl⟩
  | case7 d rest hd inner behind hinner _ _ ih =>
    cases h
    obtain ⟨part, rfl, hpart⟩ := ih hinner
    exact ⟨'\\' :: d :: part, rfl, by simp [scanQuoted, hd, hpart]⟩
  | case9 c rest hquote hline hslash inner behind hinner ih =>
    cases h
    obtain ⟨part, rfl, hpart⟩ := ih hinner
    refine ⟨c :: part, rfl, ?_⟩
    rw [scanQuoted.eq_def]
    simp [hquote, hline, hslash, hpart]
  | _ => simp at h

/-- A token is scanned the same if less follows it. -/
theorem Token.scan_truncate {c : Char} {cs text : List Char} {kind : TokenKind}
    (h : Token.scan c cs = .ok (kind, text, before ++ after)) :
    ∃ part, cs = part ++ after ∧ Token.scan c part = .ok (kind, text, before) := by
  unfold Token.scan at h
  split at h
  · rename_i kind hmark
    cases h
    exact ⟨before, rfl, by simp [Token.scan, hmark]⟩
  · rename_i hmark
    split at h
    · rename_i hname
      simp only [Except.ok.injEq, Prod.mk.injEq] at h
      obtain ⟨rfl, rfl, hrest⟩ := h
      obtain ⟨part, rfl, htake, hdrop⟩ := span_truncate hrest
      exact ⟨part, rfl, by simp [Token.scan, hmark, hname, htake, hdrop]⟩
    · rename_i hname
      split at h
      · rename_i hquote
        split at h
        · simp at h
        · rename_i hquoted
          cases h
          obtain ⟨part, rfl, hpart⟩ := scanQuoted_truncate hquoted
          refine ⟨part, rfl, ?_⟩
          simp only [Token.scan, hmark]
          rw [if_neg hname, if_pos hquote, hpart]
      · rename_i hquote
        split at h
        · rename_i hnumeral
          cases h
          obtain ⟨part, hcs, hpart⟩ := Numeral.scan_truncate hnumeral
          cases part with
          | nil => simp [Numeral.scan] at hpart
          | cons d part =>
            obtain ⟨rfl, rfl⟩ := List.cons.inj hcs
            exact ⟨part, rfl, by simp [Token.scan, hmark, hname, hquote, hpart]⟩
        · simp at h

end Literal

end Truncate

namespace Literal

/-! ## Tokens at a position -/

/-- The texts that split into given tokens, from a position on. -/
inductive Lexed : Nat → List Char → List Token → Prop where
  | nil {position : Nat} : Lexed position [] []
  | ignored {position : Nat} {c : Char} {rest : List Char} {tokens : List Token}
    (hc : isIgnored c) (h : Lexed (position + 1) rest tokens) : Lexed position (c :: rest) tokens
  /-- A comment reaches to the end of its line. -/
  | comment {position : Nat} {rest : List Char} {tokens : List Token}
    (h : Lexed (position + 1 + Text.byteSize (rest.takeWhile (· ≠ '\n')))
      (rest.dropWhile (· ≠ '\n')) tokens) : Lexed position ('#' :: rest) tokens
  | token {position : Nat} {c : Char} {rest text after : List Char} {kind : TokenKind}
    {tokens : List Token} (hc : isIgnored c = false) (hcomment : c ≠ '#')
    (hscan : Token.scan c rest = .ok (kind, text, after))
    (h : Lexed (position + Text.byteSize text) after tokens) :
    Lexed position (c :: rest) (⟨kind, ⟨position, position + Text.byteSize text⟩, text⟩ :: tokens)

/-- Where tokens end that start at a position. -/
def endOf : Nat → List Token → Nat
  | position, [] => position
  | _, token :: rest => endOf token.span.stop rest

theorem tokenizeFrom_eq_ok_iff {position : Nat} {cs : List Char} {tokens : List Token} :
    tokenizeFrom position cs = .ok tokens ↔ Lexed position cs tokens := by
  constructor
  · intro h
    fun_induction tokenizeFrom position cs generalizing tokens with
    | case1 =>
      cases h
      exact .nil
    | case2 position c rest hc ih => exact .ignored hc (ih h)
    | case3 position rest _ _ ih => exact .comment (ih h)
    | case4 => simp at h
    | case5 => simp at h
    | case6 position c rest hc hcomment kind text after hscan _ stop tokens hrest =>
      rename_i ih
      cases h
      exact .token (by simpa using hc) hcomment hscan (ih hrest)
  · intro h
    induction h with
    | nil => rw [tokenizeFrom]
    | ignored hc _ ih => rw [tokenizeFrom, if_pos hc, ih]
    | comment _ ih => rw [tokenizeFrom, if_neg (by decide), if_pos rfl, ih]
    | token hc hcomment hscan _ ih =>
      rw [tokenizeFrom, if_neg (by simp [hc]), if_neg hcomment]
      split
      · simp_all
      · rename_i hscan'
        cases hscan.symm.trans hscan'
        simp [ih]

section Parts

variable {position : Nat} {cs : List Char} {tokens : List Token}

theorem utf8Size_of_isIgnored {c : Char} (h : isIgnored c) : c.utf8Size = 1 := by
  have hmem : c ∈ [' ', '\t', '\r', '\n', ','] := by
    simpa [isIgnored, or_assoc] using h
  have hall : ∀ c ∈ [' ', '\t', '\r', '\n', ','], c.utf8Size = 1 := by
    simp [Char.utf8Size]
  exact hall c hmem

/-- A comment, with what follows on the next lines. -/
theorem comment_split {line part rest : List Char}
    (h : line.dropWhile (· ≠ '\n') = part ++ rest) :
    '#' :: line = '#' :: (line.takeWhile (· ≠ '\n') ++ part) ++ rest := by
  rw [List.cons_append, List.append_assoc, ← h, List.takeWhile_append_dropWhile]

/-- What stands in front of the first token may be cut off. -/
theorem Lexed.skip {token : Token} (h : Lexed position cs (token :: tokens)) :
    ∃ gap rest, cs = gap ++ rest ∧ token.span.start = position + Text.byteSize gap ∧
      Lexed token.span.start rest (token :: tokens) := by
  generalize htokens : token :: tokens = all at h
  induction h with
  | nil => simp at htokens
  | @ignored position c _ _ hc h ih =>
    obtain ⟨gap, rest, rfl, hstart, hrest⟩ := ih htokens
    have hsize := utf8Size_of_isIgnored hc
    exact ⟨c :: gap, rest, rfl, by rw [hstart, Text.byteSize_cons, hsize, Nat.add_assoc], hrest⟩
  | @comment position line all h ih =>
    obtain ⟨gap, rest, hgap, hstart, hrest⟩ := ih htokens
    have hsize : ('#').utf8Size = 1 := rfl
    refine ⟨_, rest, comment_split hgap, ?_, hrest⟩
    rw [hstart, Text.byteSize_cons, Text.byteSize_append, hsize]
    omega
  | token hc hcomment hscan h ih =>
    cases htokens
    exact ⟨[], _, rfl, rfl, .token hc hcomment hscan h⟩

/-- **A split of the tokens splits the text.** The text up to the end of a token has by itself the
tokens up to there, and the text behind it has the others. -/
theorem Lexed.split {before after : List Token} (h : Lexed position cs (before ++ after)) :
    ∃ part rest, cs = part ++ rest ∧ Lexed position part before ∧
      endOf position before = position + Text.byteSize part ∧
        Lexed (position + Text.byteSize part) rest after := by
  cases before with
  | nil => exact ⟨[], cs, rfl, .nil, rfl, h⟩
  | cons token others =>
    generalize htokens : token :: others ++ after = all at h
    induction h generalizing token others with
    | nil => simp at htokens
    | @ignored position c _ _ hc _ ih =>
      obtain ⟨part, rest, rfl, hpart, hstop, hrest⟩ := ih token others htokens
      have hsize : position + 1 + Text.byteSize part = position + Text.byteSize (c :: part) := by
        rw [Text.byteSize_cons, utf8Size_of_isIgnored hc, Nat.add_assoc]
      exact ⟨c :: part, rest, rfl, .ignored hc hpart, hstop.trans hsize, hsize ▸ hrest⟩
    | @comment position line _ _ ih =>
      obtain ⟨part, rest, hsplit, hpart, hstop, hrest⟩ := ih token others htokens
      obtain ⟨cut, rfl, htake, rfl⟩ := span_truncate hsplit
      rw [← htake] at hpart hstop hrest
      have hsize : position + 1 + Text.byteSize (cut.takeWhile (· ≠ '\n')) +
          Text.byteSize (cut.dropWhile (· ≠ '\n')) = position + Text.byteSize ('#' :: cut) := by
        have hcut := congrArg Text.byteSize
          (List.takeWhile_append_dropWhile (p := (· ≠ '\n')) (l := cut))
        have hhash : ('#').utf8Size = 1 := rfl
        rw [Text.byteSize_append] at hcut
        rw [Text.byteSize_cons, hhash]
        omega
      exact ⟨'#' :: cut, rest, rfl, .comment hpart, hstop.trans hsize, hsize ▸ hrest⟩
    | @token position c line text behind kind all hc hcomment hscan h ih =>
      rw [List.cons_append] at htokens
      obtain ⟨rfl, hall⟩ := List.cons.inj htokens
      have hothers : ∃ part rest, behind = part ++ rest ∧
          Lexed (position + Text.byteSize text) part others ∧
          endOf (position + Text.byteSize text) others =
            position + Text.byteSize text + Text.byteSize part ∧
          Lexed (position + Text.byteSize text + Text.byteSize part) rest after := by
        cases others with
        | nil =>
          subst hall
          exact ⟨[], behind, rfl, .nil, rfl, h⟩
        | cons next others => exact ih next others hall
      obtain ⟨part, rest, rfl, hpart, hstop, hrest⟩ := hothers
      obtain ⟨cut, rfl, hcut⟩ := Token.scan_truncate hscan
      have hsize : position + Text.byteSize text + Text.byteSize part =
          position + Text.byteSize (c :: cut) := by
        rw [← (Token.scan_append hcut).1, Text.byteSize_append, Nat.add_assoc]
      exact ⟨c :: cut, rest, rfl, .token hc hcomment hcut hpart, hstop.trans hsize, hsize ▸ hrest⟩

end Parts

end Literal

/-! ## Texts at another position -/

/-- The span that much further to the front. -/
def Span.shiftLeft (distance : Nat) (span : Span) : Span :=
  ⟨span.start - distance, span.stop - distance⟩

theorem Span.shiftLeft_merge {distance : Nat} {a b : Span} :
    (a.merge b).shiftLeft distance = (a.shiftLeft distance).merge (b.shiftLeft distance) := by
  simp only [shiftLeft, merge, mk.injEq]
  omega

namespace Literal

/-- The token that much further to the front. -/
def Token.shiftLeft (distance : Nat) (token : Token) : Token :=
  { token with span := token.span.shiftLeft distance }

/-- **Tokens do not depend on the position.** The same text further to the front has the same tokens
there. -/
theorem Lexed.shift {position distance : Nat} {cs : List Char} {tokens : List Token}
    (h : Lexed (position + distance) cs tokens) :
    Lexed position cs (tokens.map (Token.shiftLeft distance)) := by
  generalize hstart : position + distance = start at h
  induction h generalizing position with
  | nil => exact .nil
  | ignored hc _ ih => exact .ignored hc (ih (by omega))
  | comment _ ih => exact .comment (ih (by omega))
  | @token start c rest text after kind tokens hc hcomment hscan _ ih =>
    have hspan : Span.shiftLeft distance ⟨start, start + Text.byteSize text⟩ =
        ⟨position, position + Text.byteSize text⟩ := by
      simp only [Span.shiftLeft, Span.mk.injEq]
      omega
    rw [List.map_cons, Token.shiftLeft, hspan]
    exact .token hc hcomment hscan (ih (by omega))

/-! ## Order -/

/-- From the position on, the tokens stand one behind the other, and none is empty. -/
def Placed : Nat → List Token → Prop
  | _, [] => True
  | position, token :: rest =>
    position ≤ token.span.start ∧ token.span.start < token.span.stop ∧ Placed token.span.stop rest

theorem Placed.mono {position position' : Nat} {tokens : List Token} (h : Placed position' tokens)
    (hle : position ≤ position') : Placed position tokens := by
  cases tokens with
  | nil => trivial
  | cons token rest => exact ⟨Nat.le_trans hle h.1, h.2⟩

theorem endOf_append {position : Nat} {before after : List Token} :
    endOf position (before ++ after) = endOf (endOf position before) after := by
  induction before generalizing position with
  | nil => rfl
  | cons token rest ih => exact ih

theorem placed_append {position : Nat} {before after : List Token} :
    Placed position (before ++ after) ↔
      Placed position before ∧ Placed (endOf position before) after := by
  induction before generalizing position with
  | nil => simp [Placed, endOf]
  | cons token rest ih => simp only [List.cons_append, Placed, endOf, ih, and_assoc]

theorem Placed.le_endOf {position : Nat} {tokens : List Token} (h : Placed position tokens) :
    position ≤ endOf position tokens := by
  induction tokens generalizing position with
  | nil => exact Nat.le_refl position
  | cons token rest ih =>
    obtain ⟨hstart, hspan, hrest⟩ := h
    have := ih hrest
    rw [endOf]
    omega

theorem Lexed.placed {position : Nat} {cs : List Char} {tokens : List Token}
    (h : Lexed position cs tokens) : Placed position tokens := by
  induction h with
  | nil => trivial
  | ignored _ _ ih => exact ih.mono (by omega)
  | comment _ ih => exact ih.mono (by omega)
  | token _ _ hscan _ ih =>
    have := Text.byteSize_pos (Token.scan_append hscan).2
    exact ⟨Nat.le_refl _, by simp only []; omega, ih⟩

end Literal

end TaggedUnion
