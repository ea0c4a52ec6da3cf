import Mathlib
import TaggedUnion.Literal.Parser
import TaggedUnion.Proofs.Literal.Escapes
import TaggedUnion.Proofs.Literal.Lexing

/-!
# When reading a literal aborts

A bad escape is reported with the bytes that it takes. Reading aborts if these bytes end inside a
character, and in no other case.

* `contents_eq_abort_iff`: the strings at which decoding aborts.
* `parse_eq_abort_iff`: the texts at which reading a literal aborts.
* `parse_ne_abort`: it does not abort at texts of one byte for each character.
-/

namespace TaggedUnion.Literal

/-- The first bad escape of a string token takes bytes that end inside a character. -/
def Token.CutsCharacter (token : Token) : Prop :=
  ∃ good contents behind, (token.text.drop 1).dropLast = good ++ '\\' :: behind ∧
    Spells good contents ∧ Blocked behind ∧
      Text.InsideCharacter (quotedSize behind) ('\\' :: behind)

section Abort

variable {state : State} {stack : List Frame} {token : Token}

theorem contents_eq_abort_iff : token.contents = .error .abort ↔ token.CutsCharacter := by
  have hmap : token.contents = .error .abort ↔
      decode (token.span.start + 1) (token.text.drop 1).dropLast = .error .abort := by
    unfold Token.contents
    cases decode (token.span.start + 1) (token.text.drop 1).dropLast <;> simp [Except.map]
  rw [hmap, decode_eq_error_iff]
  simp only [eq_comm (a := Stop.abort), badEscape_eq_abort_iff]
  rfl

/-- Opening and refusing give errors that can be shown. -/
theorem opening_ne_abort {opened : State} : State.opening stack token opened ≠ .error .abort := by
  unfold State.opening
  split <;> simp

theorem stepValue_eq_abort_iff : State.stepValue stack token = .error .abort ↔
    token.kind = .string ∧ token.contents = .error .abort := by
  unfold State.stepValue
  cases hkind : token.kind with
  | string => cases token.contents <;> simp [Except.map]
  | braceOpen => simp [opening_ne_abort]
  | bracketOpen => simp [opening_ne_abort]
  | bracketClose => cases stack with
    | nil => simp [State.unexpected]
    | cons frame => cases frame <;> simp [State.unexpected]
  | _ => simp [State.unexpected]

/-- Only a string can abort, and only where a value comes next. -/
theorem step_eq_abort_iff : state.step token = .error .abort ↔
    ∃ stack, state = .value stack ∧ token.kind = .string ∧ token.CutsCharacter := by
  rw [← contents_eq_abort_iff]
  cases state with
  | value stack => simp [State.step, stepValue_eq_abort_iff]
  | name start fields outer =>
    simp only [State.step]
    split <;> simp [State.unexpected]
  | colon start fields field outer =>
    simp only [State.step]
    split <;> simp [State.unexpected]
  | done => simp [State.step]

theorem finish_ne_abort {size : Nat} : state.finish size ≠ .error .abort := by
  cases state <;> simp [State.finish]

end Abort

theorem parseTokens_eq_abort_iff {size : Nat} {tokens : List Token} :
    parseTokens size tokens = .error .abort ↔
      ∃ (before : List Token) (token : Token) (after : List Token) (stack : List Frame),
        tokens = before ++ token :: after ∧
          before.foldlM State.step (.value []) = .ok (.value stack) ∧ token.kind = .string ∧
            token.CutsCharacter := by
  have hrun : parseTokens size tokens = .error .abort ↔
      tokens.foldlM State.step (.value []) = .error .abort := by
    unfold parseTokens
    cases tokens.foldlM State.step (.value []) with
    | error stop => simp [Except.bind]
    | ok state => simp [Except.bind, finish_ne_abort]
  simp only [hrun, foldlM_eq_error, step_eq_abort_iff]
  constructor
  · rintro ⟨before, token, after, _, rfl, hbefore, stack, rfl, hkind, hcuts⟩
    exact ⟨before, token, after, stack, rfl, hbefore, hkind, hcuts⟩
  · rintro ⟨before, token, after, stack, rfl, hbefore, hkind, hcuts⟩
    exact ⟨before, token, after, _, rfl, hbefore, stack, rfl, hkind, hcuts⟩

/-- **Reading aborts at a bad escape that cannot be quoted.** It does so exactly if, where a value
comes next and nothing before it is wrong, there is a string whose first bad escape takes bytes that
end inside a character. -/
theorem parse_eq_abort_iff {text : String} : parse text = .error .abort ↔
    ∃ (before : List Token) (token : Token) (after : List Token) (stack : List Frame),
      tokenize text = .ok (before ++ token :: after) ∧
        before.foldlM State.step (.value []) = .ok (.value stack) ∧ token.kind = .string ∧
          token.CutsCharacter := by
  unfold parse
  cases tokenize text with
  | error error => simp
  | ok tokens => simp only [parseTokens_eq_abort_iff, Except.ok.injEq]

/-- There are texts at which reading aborts: here the two bytes of the escape end inside `é`. -/
theorem not_parse_ne_abort : ¬∀ text, parse text ≠ .error .abort :=
  fun h => h "\"\\é\"" (by cbv)

/-! ## Texts of one byte for each character -/

/-- A token is made of characters of the text. -/
theorem Lexed.mem_of_mem_text {position : Nat} {cs : List Char} {tokens : List Token}
    (h : Lexed position cs tokens) : ∀ token ∈ tokens, ∀ c ∈ token.text, c ∈ cs := by
  induction h with
  | nil => nofun
  | ignored _ _ ih => exact fun token hmem c hc => List.mem_cons_of_mem _ (ih token hmem c hc)
  | comment _ ih =>
    intro token hmem c hc
    exact List.mem_cons_of_mem _ ((List.dropWhile_suffix _).subset (ih token hmem c hc))
  | @token position c rest text after kind tokens _ _ hscan _ ih =>
    obtain ⟨hsplit, -⟩ := Token.scan_append hscan
    rw [← hsplit]
    exact List.forall_mem_cons.mpr ⟨fun c => List.mem_append_left _,
      fun token hmem c hc => List.mem_append_right _ (ih token hmem c hc)⟩

/-- Characters of one byte have no inside. -/
theorem not_insideCharacter {position : Nat} {cs : List Char}
    (h : ∀ c ∈ cs, c.utf8Size = 1) : ¬Text.InsideCharacter position cs := by
  rintro ⟨before, c, after, rfl, hlow, hhigh⟩
  have := h c (by simp)
  omega

theorem parse_ne_abort {text : String} (h : ∀ c ∈ text.toList, c.utf8Size = 1) :
    parse text ≠ .error .abort := by
  unfold parse
  cases htokens : tokenize text with
  | error error => simp
  | ok tokens =>
    simp only [ne_eq, parseTokens_eq_abort_iff]
    rintro ⟨before, token, after, stack, rfl, -, -, good, contents, behind, hsplit, -, -, hinside⟩
    have htoken : ∀ c ∈ token.text, c ∈ text.toList :=
      (tokenizeFrom_eq_ok_iff.mp htokens).mem_of_mem_text token (by simp)
    refine not_insideCharacter (fun c hmem => h c (htoken c ?_)) hinside
    -- The bad escape stands between the quotes of the token.
    have hinner : c ∈ (token.text.drop 1).dropLast := by
      rw [hsplit]
      exact List.mem_append_right good hmem
    exact List.mem_of_mem_drop (List.dropLast_subset _ hinner)

end TaggedUnion.Literal
