import Mathlib
import TaggedUnion.Literal.Parser
import TaggedUnion.Proofs.Literal.Grammar

/-!
# What the parser accepts

The parser takes one token after the other and keeps the lists and objects that are open. Here it is
compared with the grammar: what it has read at each point, and what it reads of a literal.

* `Steps`: what one token can do.
* `Holds`, `Reached`: the tokens that lead to a state.
* `Derives.reads`: reading a literal leaves the open lists and objects as they were.
* `depth_of_run`: how many are open.
* `parse_iff_derives`: the texts that are literals, and the tree of each.
-/

namespace TaggedUnion.Literal

/-! ## One token -/

/-- What one token can do. -/
inductive Steps : State → Token → State → Prop where
  | single {stack : List Frame} {token : Token} {value : Value} (h : Says token value) :
    Steps (.value stack) token (.complete ⟨value, token.span⟩ stack)
  | openList {stack : List Frame} {token : Token} (hkind : token.kind = .bracketOpen)
    (hroom : stack.length < maxDepth) :
    Steps (.value stack) token (.value (.list token.span [] :: stack))
  | closeList {start : Span} {items : List Node} {outer : List Frame} {token : Token}
    (hkind : token.kind = .bracketClose) :
    Steps (.value (.list start items :: outer)) token
      (.complete ⟨.list items.reverse, start.merge token.span⟩ outer)
  | openObject {stack : List Frame} {token : Token} (hkind : token.kind = .braceOpen)
    (hroom : stack.length < maxDepth) : Steps (.value stack) token (.name token.span [] stack)
  | closeObject {start : Span} {fields : List Field} {outer : List Frame} {token : Token}
    (hkind : token.kind = .braceClose) :
    Steps (.name start fields outer) token
      (.complete ⟨.object fields.reverse, start.merge token.span⟩ outer)
  | fieldName {start : Span} {fields : List Field} {outer : List Frame} {token : Token}
    (hkind : token.kind = .name) :
    Steps (.name start fields outer) token
      (.colon start fields ⟨String.ofList token.text, token.span⟩ outer)
  | colon {start : Span} {fields : List Field} {field : Name} {outer : List Frame} {token : Token}
    (hkind : token.kind = .colon) :
    Steps (.colon start fields field outer) token (.value (.object start fields field :: outer))

theorem contents_eq_ok_iff {token : Token} {contents : String} :
    token.contents = .ok contents ↔
      ∃ cs, Spells (token.text.drop 1).dropLast cs ∧ String.ofList cs = contents := by
  simp [Token.contents, decode_eq_ok_iff]

theorem says_bareName {span : Span} {text : List Char} :
    Says ⟨.name, span, text⟩ (State.bareName text) := by
  unfold State.bareName
  split
  · rename_i htrue
    subst htrue
    exact .true
  · rename_i htrue
    split
    · rename_i hfalse
      subst hfalse
      exact .false
    · rename_i hfalse
      split
      · rename_i hnull
        subst hnull
        exact .null
      · rename_i hnull
        exact .enum htrue hfalse hnull

theorem opening_eq_ok_iff {stack : List Frame} {token : Token} {opened state : State} :
    State.opening stack token opened = .ok state ↔ stack.length < maxDepth ∧ state = opened := by
  unfold State.opening
  by_cases hroom : stack.length < maxDepth
  · simp [hroom, eq_comm]
  · simp [hroom]

theorem stepValue_eq_ok_iff {stack : List Frame} {token : Token} {state : State} :
    State.stepValue stack token = .ok state ↔ Steps (.value stack) token state := by
  obtain ⟨kind, span, text⟩ := token
  constructor
  · intro h
    unfold State.stepValue at h
    cases kind with
    | braceOpen =>
      obtain ⟨hroom, rfl⟩ := opening_eq_ok_iff.mp h
      exact .openObject rfl hroom
    | bracketOpen =>
      obtain ⟨hroom, rfl⟩ := opening_eq_ok_iff.mp h
      exact .openList rfl hroom
    | bracketClose =>
      simp only [] at h
      split at h
      · cases h
        exact .closeList rfl
      · simp [State.unexpected] at h
    | int =>
      cases h
      exact .single .int
    | float =>
      cases h
      exact .single .float
    | string =>
      obtain ⟨contents, hcontents, rfl⟩ := map_eq_ok.mp h
      obtain ⟨cs, hspells, rfl⟩ := contents_eq_ok_iff.mp hcontents
      exact .single (.string hspells)
    | name =>
      cases h
      exact .single says_bareName
    | braceClose => simp [State.unexpected] at h
    | colon => simp [State.unexpected] at h
  · intro h
    cases h with
    | single h =>
      unfold State.stepValue
      cases h with
      | int => rfl
      | float => rfl
      | string hspells =>
        exact map_eq_ok.mpr ⟨_, contents_eq_ok_iff.mpr ⟨_, hspells, rfl⟩, rfl⟩
      | true => rfl
      | false => rfl
      | null => rfl
      | enum htrue hfalse hnull => simp [State.bareName, htrue, hfalse, hnull]
    | openList hkind hroom =>
      obtain rfl : kind = .bracketOpen := hkind
      exact opening_eq_ok_iff.mpr ⟨hroom, rfl⟩
    | closeList hkind =>
      obtain rfl : kind = .bracketClose := hkind
      rfl
    | openObject hkind hroom =>
      obtain rfl : kind = .braceOpen := hkind
      exact opening_eq_ok_iff.mpr ⟨hroom, rfl⟩

/-- The parser goes on as the relation says. -/
theorem step_eq_ok_iff {state state' : State} {token : Token} :
    state.step token = .ok state' ↔ Steps state token state' := by
  cases state with
  | value stack => exact stepValue_eq_ok_iff
  | name start fields outer =>
    simp only [State.step]
    constructor
    · intro h
      cases hkind : token.kind with
      | braceClose =>
        simp only [hkind, Except.ok.injEq] at h
        exact h ▸ .closeObject hkind
      | name =>
        simp only [hkind, Except.ok.injEq] at h
        exact h ▸ .fieldName hkind
      | _ => simp [hkind, State.unexpected] at h
    · intro h
      cases h with
      | closeObject hkind => simp [hkind]
      | fieldName hkind => simp [hkind]
  | colon start fields field outer =>
    simp only [State.step]
    constructor
    · intro h
      split at h
      · rename_i hkind
        cases h
        exact .colon hkind
      · simp [State.unexpected] at h
    · intro h
      cases h with
      | colon hkind => simp [hkind]
  | done node =>
    constructor
    · intro h
      simp [State.step] at h
    · nofun

/-! ## Reading a literal -/

section Reading

variable {outer : List Frame}

/-- A run takes one step and goes on. -/
theorem foldlM_cons_of_steps {state state' : State} {token : Token} {tokens : List Token}
    (h : Steps state token state') :
    (token :: tokens).foldlM State.step state = tokens.foldlM State.step state' := by
  rw [List.foldlM_cons, step_eq_ok_iff.mpr h]
  rfl

theorem foldlM_append_of_eq_ok {state state' : State} {tokens rest : List Token}
    (h : tokens.foldlM State.step state = .ok state') :
    (tokens ++ rest).foldlM State.step state = rest.foldlM State.step state' := by
  rw [List.foldlM_append, h]
  rfl

/-- Where there is room for them, the tokens are read as the tree, and the lists and objects around
it are left as they were. -/
def Reads (tokens : List Token) (node : Node) : Prop :=
  ∀ stack : List Frame, Fits stack.length tokens →
    tokens.foldlM State.step (.value stack) = .ok (.complete node stack)

/-- Literals one after the other are put into the open list. -/
theorem foldlM_items {items : List (List Token × Node)} (start : Span)
    (before : List Node)
    (hrun : ∀ item ∈ items, Reads item.1 item.2)
    (hbalanced : ∀ item ∈ items, openings item.1 = closings item.1)
    (hfits : Fits (outer.length + 1) (items.flatMap Prod.fst)) :
    (items.flatMap Prod.fst).foldlM State.step (.value (.list start before :: outer)) =
      .ok (.value (.list start ((items.map Prod.snd).reverse ++ before) :: outer)) := by
  induction items generalizing before with
  | nil => rfl
  | cons item rest ih =>
    obtain ⟨hfirst, hrest⟩ := List.forall_mem_cons.mp hrun
    obtain ⟨hitem, hothers⟩ := List.forall_mem_cons.mp hbalanced
    rw [List.flatMap_cons] at hfits ⊢
    rw [foldlM_append_of_eq_ok (hfirst (.list start before :: outer) hfits.left)]
    exact (ih (item.2 :: before) hrest hothers (hfits.right hitem)).trans (by simp)

/-- Fields one after the other are put into the open object. -/
theorem foldlM_parts {parts : List FieldPart} (start : Span) (before : List Field)
    (hnames : ∀ part ∈ parts, part.name.kind = .name)
    (hcolons : ∀ part ∈ parts, part.colon.kind = .colon)
    (hrun : ∀ part ∈ parts, Reads part.tokens part.value)
    (hbalanced : ∀ part ∈ parts, openings part.tokens = closings part.tokens)
    (hfits : Fits (outer.length + 1) (parts.flatMap FieldPart.word)) :
    (parts.flatMap FieldPart.word).foldlM State.step (.name start before outer) =
      .ok (.name start ((parts.map FieldPart.field).reverse ++ before) outer) := by
  induction parts generalizing before with
  | nil => rfl
  | cons part rest ih =>
    obtain ⟨hname, hnames⟩ := List.forall_mem_cons.mp hnames
    obtain ⟨hcolon, hcolons⟩ := List.forall_mem_cons.mp hcolons
    obtain ⟨hfirst, hrest⟩ := List.forall_mem_cons.mp hrun
    obtain ⟨hpart, hothers⟩ := List.forall_mem_cons.mp hbalanced
    rw [List.flatMap_cons] at hfits ⊢
    -- A name and a colon open nothing, so the value has the room that the field has.
    have hvalue : Fits (outer.length + 1) part.tokens :=
      Fits.right (FieldPart.word_eq ▸ hfits.left) (FieldPart.balanced_head hname hcolon)
    have hfield : part.word.foldlM State.step (.name start before outer) =
        .ok (.name start (part.field :: before) outer) := by
      rw [FieldPart.word, foldlM_cons_of_steps (.fieldName hname),
        foldlM_cons_of_steps (.colon hcolon), hfirst (.object start before _ :: outer) hvalue]
      rfl
    rw [foldlM_append_of_eq_ok hfield]
    have hword := FieldPart.balanced hname hcolon hpart
    exact (ih (part.field :: before) hnames hcolons hrest hothers (hfits.right hword)).trans
      (by simp)

/-- **A literal is read as its tree.** -/
theorem Derives.reads {tokens : List Token} {node : Node} (h : Derives tokens node) :
    Reads tokens node := by
  induction h with
  | single h =>
    intro stack _
    rw [foldlM_cons_of_steps (.single h)]
    rfl
  | @list opening _ _ hopening hclosing hitems ih =>
    intro stack hfits
    obtain ⟨hroom, hfits⟩ := hfits.opening (by simp [hopening, TokenKind.opens])
    have hrun := foldlM_items opening.span [] ih (fun item hmem => (hitems item hmem).balanced)
      hfits.left
    rw [foldlM_cons_of_steps (.openList hopening hroom), foldlM_append_of_eq_ok hrun,
      foldlM_cons_of_steps (.closeList hclosing), List.append_nil, List.reverse_reverse]
    rfl
  | @object opening _ _ hopening hclosing hnames hcolons hvalues ih =>
    intro stack hfits
    obtain ⟨hroom, hfits⟩ := hfits.opening (by simp [hopening, TokenKind.opens])
    have hrun := foldlM_parts opening.span [] hnames hcolons ih
      (fun part hmem => (hvalues part hmem).balanced) hfits.left
    rw [foldlM_cons_of_steps (.openObject hopening hroom), foldlM_append_of_eq_ok hrun,
      foldlM_cons_of_steps (.closeObject hclosing), List.append_nil, List.reverse_reverse]
    rfl

end Reading

/-! ## What has been read -/

/-- The tokens that have been read into the lists and objects that are open. -/
inductive Holds : List Frame → List Token → Prop where
  | nil : Holds [] []
  | list {outer : List Frame} {before : List Token} {opening : Token}
    {items : List (List Token × Node)} (houter : Holds outer before)
    (hopening : opening.kind = .bracketOpen) (hitems : ∀ item ∈ items, Derives item.1 item.2) :
    Holds (.list opening.span (items.map Prod.snd).reverse :: outer)
      (before ++ opening :: items.flatMap Prod.fst)
  | object {outer : List Frame} {before : List Token} {opening name colon : Token}
    {parts : List FieldPart} (houter : Holds outer before) (hopening : opening.kind = .braceOpen)
    (hnames : ∀ part ∈ parts, part.name.kind = .name)
    (hcolons : ∀ part ∈ parts, part.colon.kind = .colon)
    (hvalues : ∀ part ∈ parts, Derives part.tokens part.value) (hname : name.kind = .name)
    (hcolon : colon.kind = .colon) :
    Holds (.object opening.span (parts.map FieldPart.field).reverse
        ⟨String.ofList name.text, name.span⟩ :: outer)
      (before ++ opening :: (parts.flatMap FieldPart.word ++ [name, colon]))

/-- The tokens that lead to a state. -/
inductive Reached : State → List Token → Prop where
  | value {stack : List Frame} {before : List Token} (h : Holds stack before) :
    Reached (.value stack) before
  | name {outer : List Frame} {before : List Token} {opening : Token} {parts : List FieldPart}
    (houter : Holds outer before) (hopening : opening.kind = .braceOpen)
    (hnames : ∀ part ∈ parts, part.name.kind = .name)
    (hcolons : ∀ part ∈ parts, part.colon.kind = .colon)
    (hvalues : ∀ part ∈ parts, Derives part.tokens part.value) :
    Reached (.name opening.span (parts.map FieldPart.field).reverse outer)
      (before ++ opening :: parts.flatMap FieldPart.word)
  | colon {outer : List Frame} {before : List Token} {opening name : Token}
    {parts : List FieldPart} (houter : Holds outer before) (hopening : opening.kind = .braceOpen)
    (hnames : ∀ part ∈ parts, part.name.kind = .name)
    (hcolons : ∀ part ∈ parts, part.colon.kind = .colon)
    (hvalues : ∀ part ∈ parts, Derives part.tokens part.value) (hname : name.kind = .name) :
    Reached (.colon opening.span (parts.map FieldPart.field).reverse
        ⟨String.ofList name.text, name.span⟩ outer)
      (before ++ opening :: (parts.flatMap FieldPart.word ++ [name]))
  | done {node : Node} {before : List Token} (h : Derives before node) : Reached (.done node) before

section Invariant

variable {state state' : State} {before : List Token} {token : Token}

/-- A literal that is completed is put into the innermost open list or object. -/
theorem Holds.complete {stack : List Frame} {tokens : List Token} {node : Node}
    (h : Holds stack before) (hnode : Derives tokens node) :
    Reached (.complete node stack) (before ++ tokens) := by
  cases h with
  | nil => exact .done hnode
  | @list _ _ _ items houter hopening hitems =>
    have hitems' : ∀ item ∈ items ++ [(tokens, node)], Derives item.1 item.2 :=
      List.forall_mem_append.mpr ⟨hitems, List.forall_mem_singleton.mpr hnode⟩
    simpa [State.complete] using Reached.value (.list houter hopening hitems')
  | @object _ _ _ name colon parts houter hopening hnames hcolons hvalues hname hcolon =>
    let part : FieldPart := ⟨name, colon, tokens, node⟩
    have hnames' : ∀ last ∈ parts ++ [part], last.name.kind = .name :=
      List.forall_mem_append.mpr ⟨hnames, List.forall_mem_singleton.mpr hname⟩
    have hcolons' : ∀ last ∈ parts ++ [part], last.colon.kind = .colon :=
      List.forall_mem_append.mpr ⟨hcolons, List.forall_mem_singleton.mpr hcolon⟩
    have hvalues' : ∀ last ∈ parts ++ [part], Derives last.tokens last.value :=
      List.forall_mem_append.mpr ⟨hvalues, List.forall_mem_singleton.mpr hnode⟩
    simpa [State.complete, part, FieldPart.word, FieldPart.field] using
      Reached.name houter hopening hnames' hcolons' hvalues'

/-- Taking a token keeps the tokens that lead to the state. -/
theorem Reached.step (h : Reached state before) (hstep : Steps state token state') :
    Reached state' (before ++ [token]) := by
  cases hstep with
  | single hsays =>
    cases h with
    | value h => exact h.complete (.single hsays)
  | openList hkind =>
    cases h with
    | value h => exact .value (@Holds.list _ _ _ [] h hkind nofun)
  | closeList hkind =>
    cases h with
    | value h =>
      cases h with
      | list houter hopening hitems =>
        simpa using houter.complete (.list hopening hkind hitems)
  | openObject hkind =>
    cases h with
    | value h => exact @Reached.name _ _ _ [] h hkind nofun nofun nofun
  | closeObject hkind =>
    cases h with
    | name houter hopening hnames hcolons hvalues =>
      simpa using houter.complete (.object hopening hkind hnames hcolons hvalues)
  | fieldName hkind =>
    cases h with
    | name houter hopening hnames hcolons hvalues =>
      simpa using Reached.colon houter hopening hnames hcolons hvalues hkind
  | colon hkind =>
    cases h with
    | colon houter hopening hnames hcolons hvalues hname =>
      simpa using Reached.value (.object houter hopening hnames hcolons hvalues hname hkind)

/-- A run keeps the tokens that lead to the state. -/
theorem Reached.run {tokens : List Token} (h : Reached state before)
    (hrun : tokens.foldlM State.step state = .ok state') : Reached state' (before ++ tokens) := by
  induction tokens generalizing state before with
  | nil =>
    cases hrun
    rwa [List.append_nil]
  | cons token rest ih =>
    obtain ⟨next, hstep, hrest⟩ := foldlM_cons_eq_ok.mp hrun
    simpa using ih (h.step (step_eq_ok_iff.mp hstep)) hrest

end Invariant

/-! ## Depth -/

/-- How many lists and objects are open. -/
def State.depth : State → Nat
  | value stack => stack.length
  | name _ _ outer => outer.length + 1
  | colon _ _ _ outer => outer.length + 1
  | done _ => 0

section Depth

variable {state state' : State} {token : Token} {tokens : List Token}

@[simp] theorem State.depth_value {stack : List Frame} :
    (State.value stack).depth = stack.length := rfl

@[simp] theorem State.depth_name {start : Span} {fields : List Field} {outer : List Frame} :
    (State.name start fields outer).depth = outer.length + 1 := rfl

@[simp] theorem State.depth_colon {start : Span} {fields : List Field} {field : Name}
    {outer : List Frame} : (State.colon start fields field outer).depth = outer.length + 1 := rfl

@[simp] theorem State.depth_complete {node : Node} {stack : List Frame} :
    (State.complete node stack).depth = stack.length := by
  unfold State.complete
  split <;> rfl

/-- A token that opens adds one to the depth, and one that closes takes it away again. -/
theorem Steps.depth (h : Steps state token state') :
    state'.depth + (if token.kind.closes then 1 else 0) =
      state.depth + if token.kind.opens then 1 else 0 := by
  cases h with
  | single h =>
    rcases h.kind with hkind | hkind | hkind | hkind <;>
      simp [hkind, TokenKind.opens, TokenKind.closes]
  | _ => simp_all [TokenKind.opens, TokenKind.closes]

theorem Steps.depth_le (h : Steps state token state') (hdepth : state.depth ≤ maxDepth) :
    state'.depth ≤ maxDepth := by
  cases h with
  | openList _ hroom => exact hroom
  | openObject _ hroom => exact hroom
  | closeList => simpa using Nat.le_of_succ_le hdepth
  | closeObject => simpa using Nat.le_of_succ_le hdepth
  | _ => simpa using hdepth

/-- **Depth accounting.** After a run, what the tokens opened and did not close is open in addition
to what was open before. -/
theorem depth_of_run (h : tokens.foldlM State.step state = .ok state') :
    state'.depth + closings tokens = state.depth + openings tokens := by
  induction tokens generalizing state with
  | nil =>
    cases h
    rfl
  | cons token rest ih =>
    obtain ⟨next, hstep, hrest⟩ := foldlM_cons_eq_ok.mp h
    have hdepth := (step_eq_ok_iff.mp hstep).depth
    have := ih hrest
    rw [openings_cons, closings_cons]
    omega

theorem depth_le_of_run (h : tokens.foldlM State.step state = .ok state')
    (hdepth : state.depth ≤ maxDepth) : state'.depth ≤ maxDepth := by
  induction tokens generalizing state with
  | nil =>
    cases h
    exact hdepth
  | cons token rest ih =>
    obtain ⟨next, hstep, hrest⟩ := foldlM_cons_eq_ok.mp h
    exact ih hrest ((step_eq_ok_iff.mp hstep).depth_le hdepth)

/-- What has been read never had more open than the limit allows. -/
theorem fits_of_run (h : tokens.foldlM State.step state = .ok state')
    (hdepth : state.depth ≤ maxDepth) : Fits state.depth tokens := by
  rintro before ⟨after, rfl⟩
  rw [List.foldlM_append] at h
  obtain ⟨middle, hbefore, -⟩ := bind_eq_ok.mp h
  have := depth_of_run hbefore
  have := depth_le_of_run hbefore hdepth
  omega

/-- A literal that is read leaves open what was open before it. -/
theorem Derives.complete_of_run {node : Node} {stack : List Frame} (h : Derives tokens node)
    (hdepth : stack.length ≤ maxDepth)
    (hrun : tokens.foldlM State.step (.value stack) = .ok state) :
    state = .complete node stack := by
  have hfits : Fits stack.length tokens := fits_of_run hrun hdepth
  have := hrun.symm.trans (h.reads stack hfits)
  cases this
  rfl

end Depth

/-! ## The whole text -/

/-- The run over the tokens of a text ends with a literal if they are one within the limit. -/
theorem run_eq_done_iff {tokens : List Token} {node : Node} :
    tokens.foldlM State.step (.value []) = .ok (.done node) ↔
      Derives tokens node ∧ Shallow tokens := by
  rw [shallow_iff_fits]
  constructor
  · intro h
    have hreached := Reached.run (.value .nil) h
    rw [List.nil_append] at hreached
    cases hreached with
    | done hderives =>
      have hfits : Fits 0 tokens := fits_of_run h (Nat.zero_le _)
      exact ⟨hderives, hfits⟩
  · rintro ⟨hderives, hfits⟩
    exact hderives.reads [] hfits

theorem finish_eq_ok_iff {size : Nat} {state : State} {node : Node} :
    state.finish size = .ok node ↔ state = .done node := by
  cases state <;> simp [State.finish]

theorem parseTokens_eq_ok_iff {size : Nat} {tokens : List Token} {node : Node} :
    parseTokens size tokens = .ok node ↔ Derives tokens node ∧ Shallow tokens := by
  rw [← run_eq_done_iff, parseTokens]
  constructor
  · intro h
    obtain ⟨state, hrun, hfinish⟩ := bind_eq_ok.mp h
    rwa [finish_eq_ok_iff.mp hfinish] at hrun
  · intro h
    exact bind_eq_ok.mpr ⟨_, h, rfl⟩

theorem parse_eq_ok_iff {text : String} {node : Node} : parse text = .ok node ↔
    ∃ tokens, tokenize text = .ok tokens ∧ Derives tokens node ∧ Shallow tokens := by
  unfold parse
  split <;> simp_all [parseTokens_eq_ok_iff]

/-- **The parser accepts its grammar up to the nesting limit.** A text that splits into tokens is
read as a tree exactly if the tokens are a literal with that tree and no more than `maxDepth` lists
and objects are open at any point. No text has two trees. Wherever a value comes next and the
literal there is read, the lists and objects that were open are open again behind it, with the
literal put into the innermost one. -/
theorem parse_iff_derives {text : String} {tokens : List Token}
    (htokens : tokenize text = .ok tokens) :
    (∀ node, parse text = .ok node ↔ Derives tokens node ∧ Shallow tokens) ∧
    (∀ node node', Derives tokens node → Derives tokens node' → node = node') ∧
    ∀ before part after node stack state, tokens = before ++ part ++ after → Derives part node →
      before.foldlM State.step (.value []) = .ok (.value stack) →
        (before ++ part).foldlM State.step (.value []) = .ok state →
          state = .complete node stack ∧ state.depth = stack.length := by
  refine ⟨fun node => ?_, fun node node' h h' => ?_, ?_⟩
  · simp [parse_eq_ok_iff, htokens]
  · exact (h.append_cancel h' (Eq.refl (tokens ++ []))).2.1
  · rintro before part after node stack state rfl hpart hbefore hrun
    rw [foldlM_append_of_eq_ok hbefore] at hrun
    have hdepth := depth_le_of_run hbefore (Nat.zero_le _)
    obtain rfl := hpart.complete_of_run hdepth hrun
    exact ⟨rfl, State.depth_complete⟩

theorem parse_iff_derives_siblings : ∃ tokens, tokenize "[[] x]" = .ok tokens ∧
    Derives tokens ⟨.list [⟨.list [], ⟨1, 3⟩⟩, ⟨.enum "x", ⟨4, 5⟩⟩], ⟨0, 6⟩⟩ ∧ Shallow tokens := by
  have htokens : tokenize "[[] x]" = .ok [⟨.bracketOpen, ⟨0, 1⟩, ['[']⟩,
      ⟨.bracketOpen, ⟨1, 2⟩, ['[']⟩, ⟨.bracketClose, ⟨2, 3⟩, [']']⟩, ⟨.name, ⟨4, 5⟩, ['x']⟩,
      ⟨.bracketClose, ⟨5, 6⟩, [']']⟩] := by
    cbv
  exact ⟨_, htokens, ((parse_iff_derives htokens).1 _).mp (by cbv)⟩

end TaggedUnion.Literal
