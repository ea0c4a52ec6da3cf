import TaggedUnion.Proofs.Literal.LongestMatch

/-!
# Texts made of tokens

The tokens of a text and what may be skipped around them make up the whole text, and each token is
the longest match where it stands.

* `Lexed.exists_gap`, `Lexed.trailing`: what stands in front of the first token and behind the last.
* `IsTiling`: a text is made of its tokens and of what may stand between them.
* `tokenize_longest`: which texts have tokens, and how these lie in the text.
-/

namespace TaggedUnion.Literal

/-! ## What stands around the tokens -/

/-- The texts that may stand behind the last token. A comment there may reach to the end of the
text. -/
inductive Trailing : List Char → Prop where
  | nil : Trailing []
  | char {c : Char} {rest : List Char} (hc : isIgnored c) (h : Trailing rest) : Trailing (c :: rest)
  | comment {line rest : List Char} (hline : '\n' ∉ line) (h : Trailing rest) :
    Trailing ('#' :: (line ++ '\n' :: rest))
  | last {line : List Char} (hline : '\n' ∉ line) : Trailing ('#' :: line)

section Gaps

variable {position : Nat} {cs rest : List Char} {token : Token} {tokens : List Token}

theorem Ignorable.of_newline (h : Ignorable ('\n' :: rest)) : Ignorable rest := by
  generalize hcs : '\n' :: rest = cs at h
  cases h with
  | nil => simp at hcs
  | char _ h => exact (List.cons.inj hcs).2 ▸ h
  | comment => simp at hcs

theorem Trailing.of_newline (h : Trailing ('\n' :: rest)) : Trailing rest := by
  generalize hcs : '\n' :: rest = cs at h
  cases h with
  | nil => simp at hcs
  | char _ h => exact (List.cons.inj hcs).2 ▸ h
  | comment => simp at hcs
  | last => simp at hcs

/-- The first line of a text is all of it, or ends with a newline. -/
theorem line_cases (cs : List Char) :
    ('\n' ∉ cs ∧ cs.dropWhile (· ≠ '\n') = []) ∨ ∃ line rest, cs = line ++ '\n' :: rest ∧
      '\n' ∉ line ∧ cs.takeWhile (· ≠ '\n') = line ∧ cs.dropWhile (· ≠ '\n') = '\n' :: rest := by
  by_cases hnewline : '\n' ∈ cs
  · obtain ⟨line, rest, rfl, hline⟩ := List.eq_append_cons_of_mem hnewline
    obtain ⟨htake, hdrop⟩ := line_append hline
    exact .inr ⟨line, rest, rfl, hline, htake, hdrop⟩
  · refine .inl ⟨hnewline, ?_⟩
    rw [List.dropWhile_eq_nil_iff]
    intro c hc
    simpa using fun h : c = '\n' => hnewline (h ▸ hc)

/-- In front of the first token stands what may stand between tokens. -/
theorem Lexed.exists_gap (h : Lexed position cs (token :: tokens)) :
    ∃ gap c behind rest, cs = gap ++ c :: behind ∧ Ignorable gap ∧
      isIgnored c = false ∧ c ≠ '#' ∧ Token.scan c behind = .ok (token.kind, token.text, rest) ∧
      token.span = ⟨position + Text.byteSize gap,
        position + Text.byteSize gap + Text.byteSize token.text⟩ := by
  generalize htokens : token :: tokens = all at h
  induction h with
  | nil => simp at htokens
  | @ignored position d _ _ hd _ ih =>
    obtain ⟨gap, c, behind, rest, rfl, hgap, hc, hcomment, hscan, hspan⟩ := ih htokens
    refine ⟨d :: gap, c, behind, rest, rfl, .char hd hgap, hc, hcomment, hscan, ?_⟩
    rw [hspan, Text.byteSize_cons, utf8Size_of_isIgnored hd, Nat.add_assoc]
  | @comment position line _ _ ih =>
    obtain ⟨gap, c, behind, rest, hsplit, hgap, hc, hcomment, hscan, hspan⟩ := ih htokens
    rcases line_cases line with ⟨-, hdrop⟩ | ⟨front, back, rfl, hfront, htake, hdrop⟩
    · rw [hdrop] at hsplit
      simp at hsplit
    · rw [hdrop] at hsplit
      rw [htake] at hspan
      rcases List.cons_eq_append_iff.mp hsplit with ⟨-, hcons⟩ | ⟨gap', rfl, rfl⟩
      · obtain ⟨rfl, -⟩ := List.cons.inj hcons
        exact absurd hc (by decide)
      · refine ⟨'#' :: (front ++ '\n' :: gap'), c, behind, rest, by simp,
          .comment hfront hgap.of_newline, hc, hcomment, hscan, ?_⟩
        have hhash : ('#').utf8Size = 1 := rfl
        rw [hspan, Text.byteSize_cons '#', Text.byteSize_append, hhash]
        simp only [Span.mk.injEq]
        omega
  | token hc hcomment hscan _ _ =>
    cases htokens
    exact ⟨[], _, _, _, rfl, .nil, hc, hcomment, hscan, rfl⟩

/-- A text without tokens is one that may stand behind the last. -/
theorem Lexed.trailing (h : Lexed position cs []) : Trailing cs := by
  generalize htokens : ([] : List Token) = tokens at h
  induction h with
  | nil => exact .nil
  | ignored hc _ ih => exact .char hc (ih htokens)
  | @comment position line _ _ ih =>
    have hrest := ih htokens
    rcases line_cases line with ⟨hline, -⟩ | ⟨front, back, rfl, hfront, -, hdrop⟩
    · exact .last hline
    · rw [hdrop] at hrest
      exact .comment hfront hrest.of_newline
  | token => simp at htokens

/-- Tokens that are placed one behind the other are not empty, and they are in order. -/
theorem Placed.pairwise (h : Placed position tokens) :
    (∀ token ∈ tokens, position ≤ token.span.start ∧ token.span.start < token.span.stop) ∧
      tokens.Pairwise fun token next =>
        token.span.start < next.span.start ∧ token.span.stop ≤ next.span.start := by
  induction tokens generalizing position with
  | nil => exact ⟨nofun, .nil⟩
  | cons token rest ih =>
    obtain ⟨hstart, hspan, hrest⟩ := h
    obtain ⟨hall, hpairwise⟩ := ih hrest
    refine ⟨List.forall_mem_cons.mpr ⟨⟨hstart, hspan⟩, fun next hnext => ?_⟩,
      List.pairwise_cons.mpr ⟨fun next hnext => ?_, hpairwise⟩⟩
    · have := hall next hnext
      omega
    · have := hall next hnext
      omega

end Gaps

/-! ## Texts made of tokens -/

/-- The tokens lie in the text in order, and what stands around them may be skipped. -/
structure IsTiling (source : Source) (tokens : List Token) : Prop where
  nonempty : ∀ token ∈ tokens, token.span.start < token.span.stop
  ordered : tokens.Pairwise fun token next =>
    token.span.start < next.span.start ∧ token.span.stop ≤ next.span.start
  quoted : ∀ token ∈ tokens, source.slice token.span = String.ofList token.text
  pattern : ∀ token ∈ tokens, token.text ∈ token.kind.pattern
  /-- A token stands behind the end of the one before it and a gap, and what follows does not go on
  with it. -/
  placed : ∀ before token after, tokens = before ++ token :: after → ∃ front gap rest,
    source.body.toList = front ++ (gap ++ (token.text ++ rest)) ∧
      Text.byteSize front = endOf 0 before ∧
      token.span.start = Text.byteSize front + Text.byteSize gap ∧
      Ignorable gap ∧ IsLongest tokenWords token.text rest
  trailing : ∃ front last, source.body.toList = front ++ last ∧
    Text.byteSize front = endOf 0 tokens ∧ Trailing last

section Tiling

variable {source : Source} {tokens before after : List Token} {token : Token}

/-- Where a token of a text stands. -/
theorem Lexed.exists_placed {cs : List Char} (h : Lexed 0 cs (before ++ token :: after)) :
    ∃ front gap rest, cs = front ++ (gap ++ (token.text ++ rest)) ∧
      Text.byteSize front = endOf 0 before ∧
      token.span.start = Text.byteSize front + Text.byteSize gap ∧
      token.span.stop = token.span.start + Text.byteSize token.text ∧
      Ignorable gap ∧ token.text ∈ token.kind.pattern ∧ IsLongest tokenWords token.text rest := by
  obtain ⟨front, back, rfl, -, hend, hback⟩ := h.split
  obtain ⟨gap, c, behind, rest, rfl, hgap, hc, hcomment, hscan, hspan⟩ := hback.exists_gap
  have hlongest := isLongest_token hc hcomment hscan
  have hpattern := mem_pattern_of_scan hscan
  rw [← (Token.scan_append hscan).1]
  exact ⟨front, gap, rest, rfl, by rw [hend, Nat.zero_add], by rw [hspan, Nat.zero_add],
    by rw [hspan], hgap, hpattern, ⟨_, hpattern⟩,
    fun other hother => hlongest.length_le other (.inr hother)⟩

/-- **A text is made of its tokens** and of what may be skipped. -/
theorem Lexed.isTiling (h : Lexed 0 source.body.toList tokens) : IsTiling source tokens := by
  obtain ⟨hnonempty, hordered⟩ := h.placed.pairwise
  have hplaced : ∀ token ∈ tokens, ∃ before after, Lexed 0 source.body.toList
      (before ++ token :: after) := by
    intro token htoken
    obtain ⟨before, after, rfl⟩ := List.append_of_mem htoken
    exact ⟨before, after, h⟩
  refine ⟨fun token htoken => (hnonempty token htoken).2, hordered, fun token htoken => ?_,
    fun token htoken => ?_, ?_, ?_⟩
  · obtain ⟨before, after, htokens⟩ := hplaced token htoken
    obtain ⟨front, gap, rest, hbody, -, hstart, hstop, -⟩ := htokens.exists_placed
    rw [← List.append_assoc] at hbody
    exact Source.slice_eq hbody (by rw [hstart, Text.byteSize_append]) hstop
  · obtain ⟨before, after, htokens⟩ := hplaced token htoken
    obtain ⟨-, -, -, -, -, -, -, -, hpattern, -⟩ := htokens.exists_placed
    exact hpattern
  · rintro before token after rfl
    obtain ⟨front, gap, rest, hbody, hfront, hstart, -, hgap, -, hlongest⟩ := h.exists_placed
    exact ⟨front, gap, rest, hbody, hfront, hstart, hgap, hlongest⟩
  · rw [← List.append_nil tokens] at h
    obtain ⟨front, last, hbody, -, hend, hlast⟩ := h.split
    exact ⟨front, last, hbody, by rw [hend, Nat.zero_add], hlast.trailing⟩

/-- **Tokens are longest matches.** The tokens of a text lie in it in order, each is the longest
word of any pattern where it stands, and around them is only what is skipped. A text has no tokens
if and only if the scan gets stuck in it, and then the position where it does and what stands there
are reported. -/
theorem tokenize_longest (source : Source) :
    (∀ tokens, tokenize source.body = .ok tokens → IsTiling source tokens) ∧
    ((∃ error, tokenize source.body = .error error) ↔
      ∃ before after, Reaches source.body.toList before after ∧ Stuck after) ∧
    ∀ error, tokenize source.body = .error error → ∃ before after text span,
      Reaches source.body.toList before after ∧ Stuck after ∧
      (∀ before' after', Reaches source.body.toList before' after' → Stuck after' →
        before' = before) ∧
      error = .unrecognized text span ∧ span.start = Text.byteSize before ∧
      span.start < span.stop ∧ source.slice span = text := by
  refine ⟨fun tokens h => (tokenizeFrom_eq_ok_iff.mp h).isTiling, exists_tokenizeFrom_eq_error_iff,
    fun error herror => ?_⟩
  obtain ⟨before, after, hreaches, hstuck⟩ := exists_tokenizeFrom_eq_error_iff.mp ⟨error, herror⟩
  obtain ⟨part, rest, hne, rfl, hpart⟩ := tokenizeFrom_of_stuck hreaches hstuck
  have hbody := (tokenizeFrom_of_reaches hreaches).1
  have := Text.byteSize_pos hne
  cases herror.symm.trans hpart
  refine ⟨before, part ++ rest, _, _, hreaches, hstuck,
    fun _ _ hreaches' hstuck' => hreaches.stuck_unique hstuck hreaches' hstuck', rfl, rfl, ?_,
    Source.slice_eq hbody.symm rfl rfl⟩
  simp only []
  omega

theorem tokenize_longest_float_string :
    IsTiling ⟨"", "1e5 # \""⟩ [⟨.float, ⟨0, 3⟩, ['1', 'e', '5']⟩] ∧
      ∃ before after, Reaches "1 \"a".toList before after ∧ Stuck after ∧
        Text.byteSize before = 2 := by
  refine ⟨(tokenize_longest ⟨"", "1e5 # \""⟩).1 _ (by cbv), ?_⟩
  obtain ⟨before, after, _, _, hreaches, hstuck, -, herror, hstart, -⟩ :=
    (tokenize_longest ⟨"", "1 \"a"⟩).2.2 (.unrecognized "\"a" ⟨2, 4⟩) (by cbv)
  cases herror
  exact ⟨before, after, hreaches, hstuck, hstart.symm⟩

end Tiling

end TaggedUnion.Literal
