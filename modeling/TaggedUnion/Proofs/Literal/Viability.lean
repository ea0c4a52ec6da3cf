import TaggedUnion.Proofs.Literal.Quotation
import TaggedUnion.Proofs.Literal.Scanning

/-!
# Where a text stops being a literal

An error points at the first token with which no literal can start. As long as the parser has no
error, what it has read can be completed: the lists and objects that are open are closed, and a
value is put where one has to come.

* `State.shape`: the part of a state on which it depends which tokens may come next.
* `Shape.completion`: the tokens that complete what has been read.
* `Viable`: the sequences of tokens with which some literal starts.
* `viable_iff_run`: they are the ones that the parser reads without an error.
* `blames_of_parse_eq_error`: what an error says about the text.
-/

namespace TaggedUnion.Literal

/-! ## What may come next -/

/-- Whether the open part is an object. -/
def Frame.isObject : Frame → Bool
  | list .. => false
  | object .. => true

/-- What comes next, and which of the open parts are objects, innermost first. -/
inductive Shape where
  | value (stack : List Bool)
  | name (outer : List Bool)
  | colon (outer : List Bool)
  | done
  deriving DecidableEq, Repr

/-- The part of a state on which it depends which tokens may come next. -/
def State.shape : State → Shape
  | value stack => .value (stack.map Frame.isObject)
  | name _ _ outer => .name (outer.map Frame.isObject)
  | colon _ _ _ outer => .colon (outer.map Frame.isObject)
  | done _ => .done

/-- The shape behind a literal that is complete. -/
def Shape.complete : List Bool → Shape
  | [] => done
  | false :: outer => value (false :: outer)
  | true :: outer => name outer

section Shapes

variable {state state' other : State} {token twin : Token} {tokens twins : List Token}

theorem State.shape_complete {node : Node} {stack : List Frame} :
    (State.complete node stack).shape = Shape.complete (stack.map Frame.isObject) := by
  unfold State.complete
  split <;> rfl

/-- A token says the same wherever it stands. -/
theorem Says.of_lexeme {value : Value} (h : Says token value) (htwin : twin.lexeme = token.lexeme) :
    Says twin value := by
  obtain ⟨kind, span, text⟩ := twin
  cases h <;> cases htwin
  · exact .int
  · exact .float
  · exact .string ‹_›
  · exact .true
  · exact .false
  · exact .null
  · exact .enum ‹_› ‹_› ‹_›

theorem State.shape_eq_value {stack : List Bool} (h : state.shape = .value stack) :
    ∃ frames, state = .value frames ∧ frames.map Frame.isObject = stack := by
  cases state <;> simp_all [shape]

theorem State.shape_eq_name {outer : List Bool} (h : state.shape = .name outer) :
    ∃ start fields frames, state = .name start fields frames ∧
      frames.map Frame.isObject = outer := by
  cases state <;> simp_all [shape]

theorem State.shape_eq_colon {outer : List Bool} (h : state.shape = .colon outer) :
    ∃ start fields field frames, state = .colon start fields field frames ∧
      frames.map Frame.isObject = outer := by
  cases state <;> simp_all [shape]

theorem length_of_isObject {frames stack : List Frame}
    (h : frames.map Frame.isObject = stack.map Frame.isObject) : frames.length = stack.length := by
  simpa using congrArg List.length h

/-- Which tokens may come next depends on the shape only, and so does the shape behind them. -/
theorem Steps.of_shape (h : Steps state token state') (hshape : other.shape = state.shape)
    (htwin : twin.lexeme = token.lexeme) :
    ∃ other', Steps other twin other' ∧ other'.shape = state'.shape := by
  have hkind : twin.kind = token.kind := congrArg Lexeme.kind htwin
  cases h with
  | single hmeaning =>
    obtain ⟨frames, rfl, hframes⟩ := State.shape_eq_value hshape
    exact ⟨_, .single (hmeaning.of_lexeme htwin), by simp only [State.shape_complete, hframes]⟩
  | openList htoken hroom =>
    obtain ⟨frames, rfl, hframes⟩ := State.shape_eq_value hshape
    rw [← length_of_isObject hframes] at hroom
    exact ⟨_, .openList (hkind.trans htoken) hroom, by simp [State.shape, hframes, Frame.isObject]⟩
  | openObject htoken hroom =>
    obtain ⟨frames, rfl, hframes⟩ := State.shape_eq_value hshape
    rw [← length_of_isObject hframes] at hroom
    exact ⟨_, .openObject (hkind.trans htoken) hroom, by simp [State.shape, hframes]⟩
  | closeList htoken =>
    obtain ⟨frames, rfl, hframes⟩ := State.shape_eq_value hshape
    obtain ⟨frame, outer, rfl, hframe, houter⟩ := List.map_eq_cons_iff.mp hframes
    cases frame with
    | object => simp [Frame.isObject] at hframe
    | list start items =>
      exact ⟨_, .closeList (hkind.trans htoken), by simp only [State.shape_complete, houter]⟩
  | closeObject htoken =>
    obtain ⟨start, fields, frames, rfl, hframes⟩ := State.shape_eq_name hshape
    exact ⟨_, .closeObject (hkind.trans htoken), by simp only [State.shape_complete, hframes]⟩
  | fieldName htoken =>
    obtain ⟨start, fields, frames, rfl, hframes⟩ := State.shape_eq_name hshape
    exact ⟨_, .fieldName (hkind.trans htoken), by simp only [State.shape, hframes]⟩
  | colon htoken =>
    obtain ⟨start, fields, field, frames, rfl, hframes⟩ := State.shape_eq_colon hshape
    exact ⟨_, .colon (hkind.trans htoken), by simp [State.shape, hframes, Frame.isObject]⟩

/-- A run depends on the shape of the state and on what the tokens are, not on where they stand. -/
theorem run_of_shape (hrun : tokens.foldlM State.step state = .ok state')
    (hshape : other.shape = state.shape)
    (htwins : twins.map Token.lexeme = tokens.map Token.lexeme) :
    ∃ other', twins.foldlM State.step other = .ok other' ∧ other'.shape = state'.shape := by
  induction tokens generalizing twins state other with
  | nil =>
    obtain rfl := List.map_eq_nil_iff.mp htwins
    cases hrun
    exact ⟨other, rfl, hshape⟩
  | cons token rest ih =>
    obtain ⟨twin, others, rfl, htwin, hothers⟩ := List.map_eq_cons_iff.mp htwins
    obtain ⟨next, hstep, hrest⟩ := foldlM_cons_eq_ok.mp hrun
    obtain ⟨next', hstep', hnext⟩ := (step_eq_ok_iff.mp hstep).of_shape hshape htwin
    rw [foldlM_cons_of_steps hstep']
    exact ih hrest hnext hothers

end Shapes

/-! ## Completing what has been read -/

/-- The token that closes an object or a list. -/
def closer (isObject : Bool) : Lexeme :=
  if isObject then ⟨.braceClose, ['\x7d']⟩ else ⟨.bracketClose, [']']⟩

/-- Some value. -/
def filler : Lexeme := ⟨.name, ['x']⟩

/-- The tokens that complete what has been read. -/
def Shape.completion : Shape → List Lexeme
  | value stack => filler :: stack.map closer
  | name outer => closer true :: outer.map closer
  | colon outer => ⟨.colon, [':']⟩ :: filler :: closer true :: outer.map closer
  | done => []

section Completion

variable {state : State} {tokens : List Token}

/-- Behind a literal that is complete, the open lists and objects are closed one after the other. -/
theorem run_closers {node : Node} {stack : List Frame}
    (h : tokens.map Token.lexeme = (stack.map Frame.isObject).map closer) :
    ∃ node', tokens.foldlM State.step (.complete node stack) = .ok (.done node') := by
  induction stack generalizing tokens node with
  | nil =>
    obtain rfl := List.map_eq_nil_iff.mp h
    exact ⟨node, rfl⟩
  | cons frame outer ih =>
    obtain ⟨token, rest, rfl, htoken, hrest⟩ := List.map_eq_cons_iff.mp h
    have hkind : token.kind = _ := congrArg Lexeme.kind htoken
    cases frame with
    | list start items =>
      rw [State.complete, foldlM_cons_of_steps (.closeList hkind)]
      exact ih hrest
    | object start fields field =>
      rw [State.complete, foldlM_cons_of_steps (.closeObject hkind)]
      exact ih hrest

/-- A value may come where one has to, and what is open then is closed. -/
theorem run_filler {stack : List Frame}
    (h : tokens.map Token.lexeme = filler :: (stack.map Frame.isObject).map closer) :
    ∃ node, tokens.foldlM State.step (.value stack) = .ok (.done node) := by
  obtain ⟨token, rest, rfl, htoken, hrest⟩ := List.map_eq_cons_iff.mp h
  have hmeaning : Says token (State.bareName token.text) := by
    obtain ⟨kind, span, text⟩ := token
    cases htoken
    exact says_bareName
  rw [foldlM_cons_of_steps (.single hmeaning)]
  exact run_closers hrest

/-- **What has been read can be completed.** -/
theorem run_completion (h : tokens.map Token.lexeme = state.shape.completion) :
    ∃ node, tokens.foldlM State.step state = .ok (.done node) := by
  cases state with
  | value stack => exact run_filler h
  | name start fields outer =>
    obtain ⟨token, rest, rfl, htoken, hrest⟩ := List.map_eq_cons_iff.mp h
    rw [foldlM_cons_of_steps (.closeObject (congrArg Lexeme.kind htoken))]
    exact run_closers hrest
  | colon start fields field outer =>
    obtain ⟨token, rest, rfl, htoken, hrest⟩ := List.map_eq_cons_iff.mp h
    rw [foldlM_cons_of_steps (.colon (congrArg Lexeme.kind htoken))]
    exact run_filler hrest
  | done node =>
    obtain rfl := List.map_eq_nil_iff.mp h
    exact ⟨node, rfl⟩

theorem isProper_closer {isObject : Bool} : (closer isObject).IsProper := by
  cases isObject <;> exact .mark rfl

theorem isProper_filler : filler.IsProper := .name rfl

theorem isProper_completion {shape : Shape} : ∀ lexeme ∈ shape.completion, lexeme.IsProper := by
  have hclosers : ∀ {outer : List Bool}, ∀ lexeme ∈ outer.map closer, lexeme.IsProper :=
    List.forall_mem_map.mpr fun _ _ => isProper_closer
  cases shape with
  | value => exact List.forall_mem_cons.mpr ⟨isProper_filler, hclosers⟩
  | name => exact List.forall_mem_cons.mpr ⟨isProper_closer, hclosers⟩
  | colon =>
    exact List.forall_mem_cons.mpr ⟨.mark rfl, List.forall_mem_cons.mpr
      ⟨isProper_filler, List.forall_mem_cons.mpr ⟨isProper_closer, hclosers⟩⟩⟩
  | done => nofun

end Completion

/-! ## Viable sequences -/

/-- The tokens are a whole literal, within the limit of nesting. -/
def IsLiteral (tokens : List Token) : Prop := ∃ node, Derives tokens node ∧ Shallow tokens

/-- Some text that is a literal starts with these tokens. -/
def Viable (lexemes : List Lexeme) : Prop :=
  ∃ text tokens, tokenize text = .ok tokens ∧ IsLiteral tokens ∧
    lexemes <+: tokens.map Token.lexeme

section Viability

variable {tokens : List Token} {state state' : State}

theorem isLiteral_iff_run :
    IsLiteral tokens ↔ ∃ node, tokens.foldlM State.step (.value []) = .ok (.done node) :=
  exists_congr fun _ => run_eq_done_iff.symm

/-- A text in which given tokens stand one after the other. -/
theorem exists_tokenize {lexemes : List Lexeme} (h : ∀ lexeme ∈ lexemes, lexeme.IsProper) :
    ∃ text tokens, tokenize text = .ok tokens ∧ tokens.map Token.lexeme = lexemes := by
  let pieces : List Piece := lexemes.map (Piece.mk [' '])
  have hproper : ∀ piece ∈ pieces, piece.lexeme.IsProper := List.forall_mem_map.mpr h
  have hlayout : IsLayout pieces [] := by
    refine ⟨List.forall_mem_map.mpr fun _ _ => .char rfl .nil, .nil, ?_⟩
    -- There is a blank in front of each token.
    exact (List.pairwise_map.mpr (List.pairwise_of_forall fun _ _ => .inr (.inr nofun))).isChain
  obtain ⟨tokens, htext, htokens⟩ := exists_tokenize_layOut hproper hlayout
  refine ⟨_, tokens, htext, ?_⟩
  rw [htokens, List.map_map]
  exact List.map_id _

/-- The strings that have been read can be decoded. -/
theorem isDecodable_of_run (h : tokens.foldlM State.step state = .ok state') :
    ∀ token ∈ tokens, token.IsDecodable := by
  induction tokens generalizing state with
  | nil => nofun
  | cons token rest ih =>
    obtain ⟨next, hstep, hrest⟩ := foldlM_cons_eq_ok.mp h
    refine List.forall_mem_cons.mpr ⟨fun hkind => ?_, ih hrest⟩
    cases step_eq_ok_iff.mp hstep with
    | single hmeaning =>
      cases hmeaning with
      | string hspells => exact ⟨_, hspells⟩
      | _ => simp at hkind
    | _ => simp_all

/-- **The parser reads the viable sequences.** Tokens that are spelled as their kinds ask can be
completed to a literal exactly if the parser reads them without an error. -/
theorem viable_iff_run (hproper : ∀ token ∈ tokens, token.IsDecodable → token.lexeme.IsProper) :
    Viable (tokens.map Token.lexeme) ↔
      ∃ state, tokens.foldlM State.step (.value []) = .ok state := by
  constructor
  · rintro ⟨text, all, -, hliteral, rest, hrest⟩
    obtain ⟨node, hrun⟩ := isLiteral_iff_run.mp hliteral
    obtain ⟨twins, others, rfl, htwins, -⟩ := List.map_eq_append_iff.mp hrest.symm
    rw [List.foldlM_append] at hrun
    obtain ⟨state, hrun, -⟩ := bind_eq_ok.mp hrun
    obtain ⟨state', hrun', -⟩ := run_of_shape hrun (Eq.refl (State.value []).shape) htwins.symm
    exact ⟨state', hrun'⟩
  · rintro ⟨state, hrun⟩
    have hlexemes : ∀ lexeme ∈ tokens.map Token.lexeme ++ state.shape.completion,
        lexeme.IsProper :=
      List.forall_mem_append.mpr ⟨List.forall_mem_map.mpr fun token hmem =>
        hproper token hmem (isDecodable_of_run hrun token hmem), isProper_completion⟩
    obtain ⟨text, all, htext, hall⟩ := exists_tokenize hlexemes
    obtain ⟨twins, others, rfl, htwins, hothers⟩ := List.map_eq_append_iff.mp hall
    obtain ⟨state', hrun', hshape⟩ := run_of_shape hrun (Eq.refl (State.value []).shape) htwins
    obtain ⟨node, hdone⟩ := run_completion (hothers.trans (congrArg _ hshape.symm))
    refine ⟨text, _, htext, isLiteral_iff_run.mpr ⟨node, ?_⟩, _, hall.symm⟩
    rw [foldlM_append_of_eq_ok hrun', hdone]

end Viability

/-! ## Errors -/

/-- The ways in which a token is refused. -/
inductive Refuses : State → Token → SyntaxError → Prop where
  | unexpected {state : State} {token : Token} {expected : Expected} :
    Refuses state token (.unexpectedToken (String.ofList token.text) expected token.span)
  | tooDeep {state : State} {token : Token} : Refuses state token (.tooDeep token.span)
  | badEscape {state : State} {token : Token} {error : SyntaxError} (hkind : token.kind = .string)
    (h : token.contents = .error (.error error)) : Refuses state token error
  | trailing {node : Node} {token : Token} :
    Refuses (.done node) token (.trailingInput token.span)

section Errors

variable {state : State} {token : Token} {error : SyntaxError}

theorem refuses_of_unexpected {expected : Expected}
    (h : State.unexpected token expected = .error (.error error)) : Refuses state token error := by
  cases h
  exact .unexpected

theorem refuses_of_opening {stack : List Frame} {opened : State}
    (h : State.opening stack token opened = .error (.error error)) : Refuses state token error := by
  unfold State.opening at h
  split at h <;> cases h
  exact .tooDeep

theorem refuses_of_step (h : state.step token = .error (.error error)) :
    Refuses state token error := by
  cases state with
  | value stack =>
    simp only [State.step] at h
    unfold State.stepValue at h
    cases hkind : token.kind <;> simp only [hkind] at h
    case braceOpen => exact refuses_of_opening h
    case bracketOpen => exact refuses_of_opening h
    case bracketClose =>
      split at h
      · cases h
      · exact refuses_of_unexpected h
    case string => exact .badEscape hkind (map_eq_error.mp h)
    case braceClose => exact refuses_of_unexpected h
    case colon => exact refuses_of_unexpected h
    all_goals cases h
  | name =>
    simp only [State.step] at h
    split at h
    · cases h
    · cases h
    · exact refuses_of_unexpected h
  | colon =>
    simp only [State.step] at h
    split at h
    · cases h
    · exact refuses_of_unexpected h
  | done =>
    cases h
    exact .trailing

/-- A bad escape is quoted where it stands. -/
theorem quotes_of_contents (h : token.contents = .error (.error error)) :
    ∃ good sequence rest, (token.text.drop 1).dropLast = good ++ (sequence ++ rest) ∧
      error = .invalidEscape (String.ofList sequence)
        ⟨token.span.start + 1 + Text.byteSize good,
          token.span.start + 1 + Text.byteSize good + Text.byteSize sequence⟩ := by
  unfold Token.contents at h
  obtain ⟨good, contents, behind, htext, -, -, hstop⟩ := decode_eq_error_iff.mp (map_eq_error.mp h)
  unfold badEscape at hstop
  simp only [] at hstop
  split at hstop
  · rename_i sequence htake
    cases hstop
    obtain ⟨⟨rest, hrest⟩, hsize⟩ := Text.takeBytes?_eq_some_iff.mp htake
    exact ⟨good, sequence, rest, by rw [htext, hrest], by rw [hsize]⟩
  · cases hstop

theorem finish_eq_error {size : Nat} (h : state.finish size = .error (.error error)) :
    (∃ expected, error = .unexpectedEnd expected (.point size)) ∧ ∀ node, state ≠ .done node := by
  cases state <;> cases h <;> exact ⟨⟨_, rfl⟩, nofun⟩

end Errors

/-! ## What an error says -/

/-- The token is the first one with which no literal goes on. -/
def Breaks (tokens : List Token) (token : Token) : Prop :=
  ∃ before after, tokens = before ++ token :: after ∧ Viable (before.map Token.lexeme) ∧
    ¬Viable ((before ++ [token]).map Token.lexeme)

/-- What an error says about the tokens of a text, and what it quotes. -/
inductive SyntaxError.Blames (source : Source) (tokens : List Token) : SyntaxError → Prop where
  | unexpectedToken {token : Token} {found : String} {expected : Expected}
    (hbreaks : Breaks tokens token) (hfound : source.slice token.span = found) :
    Blames source tokens (.unexpectedToken found expected token.span)
  | tooDeep {token : Token} (hbreaks : Breaks tokens token) :
    Blames source tokens (.tooDeep token.span)
  | invalidEscape {token : Token} {sequence : String} {span : Span} (hbreaks : Breaks tokens token)
    (hspan : span.Within token.span) (hsequence : source.slice span = sequence) :
    Blames source tokens (.invalidEscape sequence span)
  /-- The text may go on, but it ends. -/
  | unexpectedEnd {expected : Expected} (hviable : Viable (tokens.map Token.lexeme))
    (hopen : ¬IsLiteral tokens) : Blames source tokens
      (.unexpectedEnd expected (.point (Text.byteSize source.body.toList)))
  /-- The literal ends in front of the token. -/
  | trailingInput {before after : List Token} {token : Token}
    (htokens : tokens = before ++ token :: after) (hbefore : IsLiteral before) :
    Blames source tokens (.trailingInput token.span)

section Blame

variable {source : Source} {tokens before after : List Token} {token : Token} {state : State}
  {error : SyntaxError}

/-- A token that the parser refuses breaks off all literals. -/
theorem breaks_of_step {stop : Stop}
    (htokens : tokenize source.body = .ok (before ++ token :: after))
    (hbefore : before.foldlM State.step (.value []) = .ok state)
    (hstep : state.step token = .error stop) : Breaks (before ++ token :: after) token := by
  have hproper := (tokenizeFrom_eq_ok_iff.mp htokens).isProper
  refine ⟨before, after, rfl, ?_, ?_⟩
  · rw [viable_iff_run fun token hmem => hproper token (List.mem_append_left _ hmem)]
    exact ⟨state, hbefore⟩
  · have hsub : ∀ other ∈ before ++ [token], other ∈ before ++ token :: after := by
      simp +contextual [or_imp]
    rw [viable_iff_run fun other hmem => hproper other (hsub other hmem)]
    rintro ⟨state', hrun⟩
    rw [foldlM_append_of_eq_ok hbefore, foldlM_cons_eq_ok] at hrun
    obtain ⟨next, hnext, -⟩ := hrun
    cases hstep.symm.trans hnext

/-- The text of a token stands where its span says. -/
theorem exists_split (htokens : tokenize source.body = .ok (before ++ token :: after)) :
    ∃ front rest, source.body.toList = front ++ (token.text ++ rest) ∧
      token.span = ⟨Text.byteSize front, Text.byteSize front + Text.byteSize token.text⟩ ∧
        ∃ c behind, Scanned c behind token.kind token.text rest := by
  obtain ⟨front, c, behind, rest, hbody, hstart, hstop, hscan, -⟩ :=
    (tokenizeFrom_eq_ok_iff.mp htokens).exists_scan rfl
  rw [Nat.zero_add] at hstart
  refine ⟨front, rest, ?_, ?_, c, behind, scanned_of_scan hscan⟩
  · rw [hbody, (Token.scan_append hscan).1]
  · rw [← hstart, ← hstop]

/-- A span between characters of the text quotes what stands there. -/
theorem slice_within {left middle right : List Char}
    (hbody : source.body.toList = left ++ (middle ++ right)) :
    source.slice ⟨Text.byteSize left, Text.byteSize left + Text.byteSize middle⟩ =
        String.ofList middle ∧
      Text.byteSize left + Text.byteSize middle ≤ Text.byteSize source.body.toList := by
  refine ⟨Source.slice_eq hbody rfl rfl, ?_⟩
  rw [hbody, Text.byteSize_append, Text.byteSize_append]
  omega

/-- A span between the quotes of a string quotes what stands there. -/
theorem slice_between_quotes {front good sequence tail rest : List Char}
    (hbody : source.body.toList = front ++ (token.text ++ rest))
    (hspan : token.span = ⟨Text.byteSize front, Text.byteSize front + Text.byteSize token.text⟩)
    (htext : token.text = '"' :: (good ++ (sequence ++ tail) ++ ['"'])) :
    source.slice ⟨token.span.start + 1 + Text.byteSize good,
        token.span.start + 1 + Text.byteSize good + Text.byteSize sequence⟩ =
        String.ofList sequence ∧
      token.span.start + 1 + Text.byteSize good + Text.byteSize sequence ≤ token.span.stop := by
  have hquote : Char.utf8Size '"' = 1 := by decide
  have hsplit : source.body.toList =
      (front ++ '"' :: good) ++ (sequence ++ (tail ++ '"' :: rest)) := by
    simp [hbody, htext]
  have hstart : Text.byteSize (front ++ '"' :: good) =
      token.span.start + 1 + Text.byteSize good := by
    simp [hspan, hquote, Nat.add_assoc]
  refine ⟨hstart ▸ (slice_within hsplit).1, ?_⟩
  rw [hspan, htext]
  simp only [Text.byteSize_cons, Text.byteSize_append, hquote]
  omega

/-- What a refused token says. -/
theorem blames_of_refuses (htokens : tokenize source.body = .ok (before ++ token :: after))
    (hbefore : before.foldlM State.step (.value []) = .ok state)
    (hstep : state.step token = .error (.error error)) :
    error.Blames source (before ++ token :: after) ∧
      error.span.Within ⟨0, Text.byteSize source.body.toList⟩ ∧
        error.span.start ≤ error.span.stop := by
  have hbreaks := breaks_of_step htokens hbefore hstep
  obtain ⟨front, rest, hbody, hspan, c, behind, hscanned⟩ := exists_split htokens
  obtain ⟨hslice, hsize⟩ := slice_within hbody
  rw [← hspan] at hslice
  have hwithin : token.span.Within ⟨0, Text.byteSize source.body.toList⟩ ∧
      token.span.start ≤ token.span.stop := by
    rw [hspan]
    exact ⟨⟨Nat.zero_le _, hsize⟩, Nat.le_add_right _ _⟩
  cases refuses_of_step hstep with
  | unexpected => exact ⟨.unexpectedToken hbreaks hslice, hwithin⟩
  | tooDeep => exact ⟨.tooDeep hbreaks, hwithin⟩
  | trailing => exact ⟨.trailingInput rfl (isLiteral_iff_run.mpr ⟨_, hbefore⟩), hwithin⟩
  | badEscape hkind hcontents =>
    obtain ⟨good, sequence, tail, htext, rfl⟩ := quotes_of_contents hcontents
    -- The contents stand between two quotes, so what is quoted stands inside the token.
    obtain ⟨part, hquoted⟩ : ∃ part, token.text = '"' :: (part ++ ['"']) := by
      rw [hkind] at hscanned
      generalize token.text = text at hscanned
      cases hscanned with
      | mark _ hmark => simp [TokenKind.isMark] at hmark
      | string => exact ⟨_, rfl⟩
    obtain rfl : part = good ++ (sequence ++ tail) := by simpa [hquoted] using htext
    obtain ⟨hsequence, hstop⟩ := slice_between_quotes hbody hspan hquoted
    refine ⟨.invalidEscape hbreaks ⟨?_, hstop⟩ hsequence, ⟨Nat.zero_le _, ?_⟩, Nat.le_add_right _ _⟩
    · show token.span.start ≤ token.span.start + 1 + Text.byteSize good
      omega
    · exact hstop.trans hwithin.1.2

/-- **What a syntax error says about the text.** If the tokens of a text are not a literal, then the
error points at the first token with which no literal goes on, at the end of a text that may go on,
or at the token behind a whole literal; and it quotes what stands there. -/
theorem blames_of_parse_eq_error (htokens : tokenize source.body = .ok tokens)
    (h : parse source.body = .error (.error error)) :
    error.Blames source tokens ∧ error.span.Within ⟨0, Text.byteSize source.body.toList⟩ ∧
      error.span.start ≤ error.span.stop := by
  simp only [parse, htokens, parseTokens] at h
  cases hrun : tokens.foldlM State.step (.value []) with
  | error stop =>
    rw [hrun] at h
    cases h
    obtain ⟨before, token, after, state, rfl, hbefore, hstep⟩ := foldlM_eq_error.mp hrun
    exact blames_of_refuses htokens hbefore hstep
  | ok state =>
    rw [hrun] at h
    obtain ⟨⟨expected, rfl⟩, hopen⟩ := finish_eq_error h
    have hviable : Viable (tokens.map Token.lexeme) :=
      (viable_iff_run (tokenizeFrom_eq_ok_iff.mp htokens).isProper).mpr ⟨state, hrun⟩
    refine ⟨.unexpectedEnd hviable fun hliteral => ?_, ⟨Nat.zero_le _, le_rfl⟩, le_rfl⟩
    obtain ⟨node, hdone⟩ := isLiteral_iff_run.mp hliteral
    cases hrun.symm.trans hdone
    exact hopen node rfl

/-- A bad escape in the only item of a list is quoted, and no literal goes on with that item. -/
theorem blames_bad_escape :
    parse "[\"\\q\"]" = .error (.error (.invalidEscape "\\q" ⟨2, 4⟩)) ∧
      (SyntaxError.invalidEscape "\\q" ⟨2, 4⟩).Blames ⟨"", "[\"\\q\"]"⟩
        [⟨.bracketOpen, ⟨0, 1⟩, ['[']⟩, ⟨.string, ⟨1, 5⟩, ['"', '\\', 'q', '"']⟩,
          ⟨.bracketClose, ⟨5, 6⟩, [']']⟩] := by
  have hparse : parse "[\"\\q\"]" = .error (.error (.invalidEscape "\\q" ⟨2, 4⟩)) := by cbv
  exact ⟨hparse, (blames_of_parse_eq_error (by cbv) hparse).1⟩

end Blame

end TaggedUnion.Literal
