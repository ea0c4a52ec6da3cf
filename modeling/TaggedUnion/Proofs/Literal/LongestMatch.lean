import TaggedUnion.Proofs.Literal.Pattern

/-!
# Tokens are longest matches

A text is taken apart from its start: at each position the longest word is taken off, be it a token
or something that is skipped. Where no word starts, the text is refused.

* `Reaches`, `Stuck`: the positions of the scan, and those where it cannot go on.
* `step`: what is done at one position.
* `tokenizeFrom_of_reaches`: the tokens of a text are found on the way of the scan.
* `exists_tokenizeFrom_eq_error_iff`: a text is refused where the scan gets stuck.
-/

namespace TaggedUnion.Literal

open Pattern

/-! ## The scan -/

/-- The words of all kinds of tokens. -/
def tokenWords : Language Char := {word | ∃ kind : TokenKind, word ∈ kind.pattern}

/-- The words that are taken off a text at once: tokens, and what is skipped. -/
def lexical : Language Char := skipped + tokenWords

/-- The word is in the language, and no longer one starts where it does. -/
structure IsLongest (language : Language Char) (word rest : List Char) : Prop where
  mem : word ∈ language
  length_le : ∀ other ∈ language, other <+: word ++ rest → other.length ≤ word.length

/-- The text has not ended, but no word starts it. -/
structure Stuck (rest : List Char) : Prop where
  ne_nil : rest ≠ []
  not_prefix : ∀ word ∈ lexical, ¬word <+: rest

/-- The positions that the scan of a text comes to, as what is behind it and what is in front. -/
inductive Reaches (text : List Char) : List Char → List Char → Prop where
  | start : Reaches text [] text
  | next {before word after : List Char} (h : Reaches text before (word ++ after))
    (hword : IsLongest lexical word after) : Reaches text (before ++ word) after

/-! ## One position -/

section Step

variable {c : Char} {cs word rest text after part : List Char} {kind : TokenKind}

theorem prefix_takeWhile {p : Char → Bool} (hword : ∀ c ∈ word, p c) (h : word <+: cs) :
    word <+: cs.takeWhile p := by
  obtain ⟨rest, rfl⟩ := h
  rw [List.takeWhile_append_of_pos hword]
  exact List.prefix_append _ _

/-- The first character tells which words may start a text. -/
theorem lexical_cases (hword : word ∈ lexical) (h : word <+: c :: cs) :
    (isIgnored c ∧ word <+: c :: cs.takeWhile isIgnored) ∨
    (c = '#' ∧ word <+: '#' :: cs.takeWhile (· ≠ '\n')) ∨
    (isIgnored c = false ∧ c ≠ '#' ∧ ∃ kind text after,
      Token.scan c cs = .ok (kind, text, after) ∧ word.length ≤ text.length) := by
  rcases hword with (hword | hword) | ⟨kind, hword⟩
  · obtain ⟨hne, hall⟩ := mem_run.mp hword
    obtain ⟨d, ds, rfl⟩ := List.exists_cons_of_ne_nil hne
    obtain ⟨rfl, -⟩ := List.cons_prefix_cons.mp h
    have hd : isIgnored d := hall d List.mem_cons_self
    refine .inl ⟨hd, ?_⟩
    rw [← List.takeWhile_cons_of_pos hd]
    exact prefix_takeWhile hall h
  · obtain ⟨d, ds, rfl, hd, hline⟩ := mem_oneOf_mul.mp hword
    obtain rfl : d = '#' := of_decide_eq_true hd
    obtain ⟨hc, hds⟩ := List.cons_prefix_cons.mp h
    exact .inr (.inl ⟨hc.symm,
      List.cons_prefix_cons.mpr ⟨rfl, prefix_takeWhile (mem_kstar_oneOf.mp hline) hds⟩⟩)
  · obtain ⟨rest, hrest⟩ := h
    obtain ⟨⟨kind, text⟩, after, ⟨d, ds, htext, hignored, hhash, hscan⟩, happend, hle⟩ :=
      isCovered_of_mem_pattern hword rest
    simp only [] at htext hscan happend hle
    rw [htext, hrest, List.cons_append] at happend
    obtain ⟨rfl, rfl⟩ := List.cons.inj happend
    exact .inr (.inr ⟨hignored, hhash, kind, text, after, hscan, hle⟩)

theorem isLongest_separators (hc : isIgnored c) (cs : List Char) :
    IsLongest lexical (c :: cs.takeWhile isIgnored) (cs.dropWhile isIgnored) := by
  have hall : ∀ d ∈ c :: cs.takeWhile isIgnored, isIgnored d :=
    List.forall_mem_cons.mpr ⟨hc, mem_takeWhile⟩
  refine ⟨.inl (.inl (mem_run.mpr ⟨List.cons_ne_nil _ _, hall⟩)), fun other hother h => ?_⟩
  rw [List.cons_append, List.takeWhile_append_dropWhile] at h
  rcases lexical_cases hother h with ⟨-, h⟩ | ⟨rfl, -⟩ | ⟨hnot, -⟩
  · exact h.length_le
  · exact absurd hc (by decide)
  · exact absurd hc (by simp [hnot])

theorem isLongest_comment (cs : List Char) :
    IsLongest lexical ('#' :: cs.takeWhile (· ≠ '\n')) (cs.dropWhile (· ≠ '\n')) := by
  refine ⟨.inl (.inr (mem_oneOf_mul.mpr ⟨'#', _, rfl, rfl, mem_kstar_oneOf.mpr mem_takeWhile⟩)),
    fun other hother h => ?_⟩
  rw [List.cons_append, List.takeWhile_append_dropWhile] at h
  rcases lexical_cases hother h with ⟨hignored, -⟩ | ⟨-, h⟩ | ⟨-, hhash, -⟩
  · exact absurd hignored (by decide)
  · exact h.length_le
  · exact absurd rfl hhash

theorem isLongest_token (hignored : isIgnored c = false) (hcomment : c ≠ '#')
    (hscan : Token.scan c cs = .ok (kind, text, after)) : IsLongest lexical text after := by
  refine ⟨.inr ⟨kind, mem_pattern_of_scan hscan⟩, fun other hother h => ?_⟩
  rw [(Token.scan_append hscan).1] at h
  rcases lexical_cases hother h with ⟨hc, -⟩ | ⟨hc, -⟩ | ⟨-, -, _, _, _, hscan', hle⟩
  · exact absurd hc (by simp [hignored])
  · exact absurd hc hcomment
  · cases hscan.symm.trans hscan'
    exact hle

theorem stuck_of_scan_eq_error (hignored : isIgnored c = false) (hcomment : c ≠ '#')
    (hscan : Token.scan c cs = .error part) : Stuck (c :: cs) := by
  refine ⟨List.cons_ne_nil c cs, fun other hother h => ?_⟩
  rcases lexical_cases hother h with ⟨hc, -⟩ | ⟨hc, -⟩ | ⟨-, -, _, _, _, hscan', -⟩
  · exact absurd hc (by simp [hignored])
  · exact absurd hc hcomment
  · cases hscan.symm.trans hscan'

theorem prefix_of_scanQuoted_eq_error (h : scanQuoted cs = .error part) : part <+: cs := by
  fun_induction scanQuoted cs generalizing part with
  | case1 => cases h; exact List.nil_prefix
  | case3 => cases h; exact List.nil_prefix
  | case4 => cases h; exact List.nil_prefix
  | case5 => cases h; exact List.nil_prefix
  | case6 _ _ _ _ hinner _ _ ih =>
    cases h
    exact List.cons_prefix_cons.mpr ⟨rfl, List.cons_prefix_cons.mpr ⟨rfl, ih hinner⟩⟩
  | case8 _ _ _ _ _ _ hinner ih =>
    cases h
    exact List.cons_prefix_cons.mpr ⟨rfl, ih hinner⟩
  | _ => simp at h

theorem prefix_of_scan_eq_error (h : Token.scan c cs = .error part) :
    part ≠ [] ∧ part <+: c :: cs := by
  unfold Token.scan at h
  split at h
  · simp at h
  · split at h
    · simp at h
    · split at h
      · split at h
        · rename_i hscan
          cases h
          exact ⟨List.cons_ne_nil _ _,
            List.cons_prefix_cons.mpr ⟨rfl, prefix_of_scanQuoted_eq_error hscan⟩⟩
        · simp at h
      · split at h
        · simp at h
        · cases h
          exact ⟨List.cons_ne_nil _ _, List.cons_prefix_cons.mpr ⟨rfl, List.nil_prefix⟩⟩

/-- A run of blanks and commas is skipped as a whole. -/
theorem tokenizeFrom_separators (position : Nat) (cs : List Char) :
    tokenizeFrom position cs = tokenizeFrom (position + Text.byteSize (cs.takeWhile isIgnored))
      (cs.dropWhile isIgnored) := by
  induction cs generalizing position with
  | nil => rfl
  | cons c cs ih =>
    by_cases hc : isIgnored c
    · rw [List.takeWhile_cons_of_pos hc, List.dropWhile_cons_of_pos hc, Text.byteSize_cons,
        utf8Size_of_isIgnored hc, ← Nat.add_assoc, ← ih, tokenizeFrom, if_pos hc]
    · rw [List.takeWhile_cons_of_neg hc, List.dropWhile_cons_of_neg hc]
      rfl

theorem tokenizeFrom_comment (position : Nat) (cs : List Char) :
    tokenizeFrom position ('#' :: cs) =
      tokenizeFrom (position + Text.byteSize ('#' :: cs.takeWhile (· ≠ '\n')))
        (cs.dropWhile (· ≠ '\n')) := by
  have hhash : ('#').utf8Size = 1 := rfl
  rw [tokenizeFrom, if_neg (by decide), if_pos rfl, Text.byteSize_cons, hhash, Nat.add_assoc]

theorem tokenizeFrom_token {position : Nat} (hignored : isIgnored c = false) (hcomment : c ≠ '#')
    (hscan : Token.scan c cs = .ok (kind, text, after)) :
    tokenizeFrom position (c :: cs) = (tokenizeFrom (position + Text.byteSize text) after).map
      (⟨kind, ⟨position, position + Text.byteSize text⟩, text⟩ :: ·) := by
  rw [tokenizeFrom, if_neg (by simp [hignored]), if_neg hcomment]
  split
  · simp_all
  · rename_i hscan'
    cases hscan.symm.trans hscan'
    simp only []
    cases tokenizeFrom (position + Text.byteSize text) after <;> rfl

theorem tokenizeFrom_eq_error {position : Nat} (hignored : isIgnored c = false)
    (hcomment : c ≠ '#') (hscan : Token.scan c cs = .error part) :
    tokenizeFrom position (c :: cs) = .error
      (.unrecognized (String.ofList part) ⟨position, position + Text.byteSize part⟩) := by
  rw [tokenizeFrom, if_neg (by simp [hignored]), if_neg hcomment]
  split
  · rename_i hscan'
    cases hscan.symm.trans hscan'
    rfl
  · simp_all

/-- What is done with a text: nothing at its end, else the longest word is taken off, with no token
or one in it, or what stands in place of a word is refused. -/
inductive Step : List Char → Prop where
  | done : Step []
  | word {word after : List Char} (hne : word ≠ []) (hword : IsLongest lexical word after)
    (h : ∀ position, ∃ tokens, tokenizeFrom position (word ++ after) =
      (tokenizeFrom (position + Text.byteSize word) after).map (tokens ++ ·)) :
    Step (word ++ after)
  | stuck {part rest : List Char} (hne : part ≠ []) (hstuck : Stuck (part ++ rest))
    (h : ∀ position, tokenizeFrom position (part ++ rest) = .error
      (.unrecognized (String.ofList part) ⟨position, position + Text.byteSize part⟩)) :
    Step (part ++ rest)

theorem map_nil_append {ε : Type} {outcome : Except ε (List Token)} :
    outcome.map ([] ++ ·) = outcome := by
  cases outcome <;> rfl

/-- A word that is skipped is taken off without a token. -/
theorem Step.skip (hsplit : word ++ after = cs) (hne : word ≠ [])
    (hword : IsLongest lexical word after) (h : ∀ position, tokenizeFrom position cs =
      tokenizeFrom (position + Text.byteSize word) after) : Step cs := by
  subst hsplit
  exact .word hne hword fun position => ⟨[], by rw [map_nil_append, h]⟩

/-- **The longest word is taken off.** -/
theorem step (cs : List Char) : Step cs := by
  cases cs with
  | nil => exact .done
  | cons c cs =>
    by_cases hc : isIgnored c
    · refine .skip ?_ (List.cons_ne_nil _ _) (isLongest_separators hc cs) fun position => ?_
      · rw [List.cons_append, List.takeWhile_append_dropWhile]
      · rw [tokenizeFrom_separators, List.takeWhile_cons_of_pos hc, List.dropWhile_cons_of_pos hc]
    · have hignored : isIgnored c = false := by simpa using hc
      by_cases hcomment : c = '#'
      · subst hcomment
        refine .skip ?_ (List.cons_ne_nil _ _) (isLongest_comment cs) fun position =>
          tokenizeFrom_comment position cs
        rw [List.cons_append, List.takeWhile_append_dropWhile]
      · cases hscan : Token.scan c cs with
        | ok result =>
          obtain ⟨kind, text, after⟩ := result
          obtain ⟨happend, hne⟩ := Token.scan_append hscan
          have hlongest := isLongest_token hignored hcomment hscan
          rw [← happend]
          exact .word hne hlongest fun position =>
            ⟨[_], by rw [happend]; exact tokenizeFrom_token hignored hcomment hscan⟩
        | error part =>
          obtain ⟨hne, rest, hrest⟩ := prefix_of_scan_eq_error hscan
          have hstuck := stuck_of_scan_eq_error hignored hcomment hscan
          rw [← hrest] at hstuck ⊢
          exact .stuck hne hstuck fun position => by
            rw [hrest]
            exact tokenizeFrom_eq_error hignored hcomment hscan

end Step

/-! ## The whole scan -/

section Scan

variable {text before after word word' rest rest' : List Char}

/-- Of the words that start a text, only one is the longest. -/
theorem IsLongest.unique {language : Language Char} (h : IsLongest language word rest)
    (h' : IsLongest language word' rest') (htext : word ++ rest = word' ++ rest') :
    word = word' ∧ rest = rest' := by
  have hle := h'.length_le word h.mem (htext ▸ List.prefix_append word rest)
  have hle' := h.length_le word' h'.mem (htext ▸ List.prefix_append word' rest')
  exact List.append_inj htext (Nat.le_antisymm hle hle')

/-- **The tokens are found on the way.** Where the scan comes to, what is in front is scanned as it
is from the start. -/
theorem tokenizeFrom_of_reaches (h : Reaches text before after) :
    before ++ after = text ∧ ∃ tokens, tokenizeFrom 0 text =
      (tokenizeFrom (Text.byteSize before) after).map (tokens ++ ·) := by
  induction h with
  | start => exact ⟨rfl, [], map_nil_append.symm⟩
  | @next before word after _ hword ih =>
    obtain ⟨happend, tokens, htokens⟩ := ih
    refine ⟨by rw [List.append_assoc, happend], ?_⟩
    generalize hsplit : word ++ after = cs at happend htokens
    cases step cs with
    | done =>
      obtain ⟨rfl, rfl⟩ := List.append_eq_nil_iff.mp hsplit
      exact ⟨tokens, by rwa [List.append_nil]⟩
    | word _ hword' hnext =>
      obtain ⟨rfl, rfl⟩ := hword.unique hword' hsplit
      obtain ⟨found, hfound⟩ := hnext (Text.byteSize before)
      refine ⟨tokens ++ found, ?_⟩
      rw [htokens, hfound, Text.byteSize_append]
      cases tokenizeFrom (Text.byteSize before + Text.byteSize word) after with
      | error e => rfl
      | ok others => simp [Except.map]
    | stuck _ hstuck _ =>
      exact absurd (hsplit ▸ List.prefix_append word after) (hstuck.not_prefix word hword.mem)

/-- The scan comes to the end of the text, or it gets stuck. -/
theorem Reaches.exists_last {text before after : List Char} (h : Reaches text before after) :
    ∃ before' after', Reaches text before' after' ∧ (after' = [] ∨ Stuck after') := by
  cases step after with
  | done => exact ⟨before, [], h, .inl rfl⟩
  | @word word after hne hword _ =>
    have := List.length_pos_iff.mpr hne
    exact Reaches.exists_last (h.next hword)
  | stuck _ hstuck _ => exact ⟨before, _, h, .inr hstuck⟩
termination_by after.length
decreasing_by simp_all

/-- Where the scan gets stuck, the text is refused. -/
theorem tokenizeFrom_of_stuck (h : Reaches text before after) (hstuck : Stuck after) :
    ∃ part rest, part ≠ [] ∧ after = part ++ rest ∧ tokenizeFrom 0 text = .error
      (.unrecognized (String.ofList part)
        ⟨Text.byteSize before, Text.byteSize before + Text.byteSize part⟩) := by
  obtain ⟨-, tokens, htokens⟩ := tokenizeFrom_of_reaches h
  cases step after with
  | done => exact absurd rfl hstuck.ne_nil
  | word _ hword _ =>
    exact absurd (List.prefix_append _ _) (hstuck.not_prefix _ hword.mem)
  | @stuck part rest hne _ herror => exact ⟨part, rest, hne, rfl, by rw [htokens, herror]; rfl⟩

/-- **A text is refused if and only if the scan gets stuck.** -/
theorem exists_tokenizeFrom_eq_error_iff : (∃ error, tokenizeFrom 0 text = .error error) ↔
    ∃ before after, Reaches text before after ∧ Stuck after := by
  constructor
  · rintro ⟨error, herror⟩
    have hstart : Reaches text [] text := .start
    obtain ⟨before, after, hreaches, rfl | hstuck⟩ := hstart.exists_last
    · obtain ⟨-, tokens, htokens⟩ := tokenizeFrom_of_reaches hreaches
      rw [herror, tokenizeFrom] at htokens
      cases htokens
    · exact ⟨before, after, hreaches, hstuck⟩
  · rintro ⟨before, after, hreaches, hstuck⟩
    obtain ⟨_, _, _, _, herror⟩ := tokenizeFrom_of_stuck hreaches hstuck
    exact ⟨_, herror⟩

/-- The scan gets stuck at one position at most. -/
theorem Reaches.stuck_unique {before' after' : List Char} (h : Reaches text before after)
    (hstuck : Stuck after) (h' : Reaches text before' after') (hstuck' : Stuck after') :
    before' = before := by
  obtain ⟨happend, -⟩ := tokenizeFrom_of_reaches h
  obtain ⟨happend', -⟩ := tokenizeFrom_of_reaches h'
  obtain ⟨_, _, -, -, herror⟩ := tokenizeFrom_of_stuck h hstuck
  obtain ⟨_, _, -, -, herror'⟩ := tokenizeFrom_of_stuck h' hstuck'
  have hsize : Text.byteSize before' = Text.byteSize before := by
    have hsame := herror'.symm.trans herror
    simp only [Except.error.injEq, SyntaxError.unrecognized.injEq, Span.mk.injEq] at hsame
    exact hsame.2.1
  have hcut := Text.takeBytes?_append before' after'
  rw [happend', hsize, ← happend, Text.takeBytes?_append] at hcut
  exact (Option.some.inj hcut).symm

end Scan

end TaggedUnion.Literal
