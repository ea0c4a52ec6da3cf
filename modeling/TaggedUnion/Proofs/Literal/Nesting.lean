import TaggedUnion.Proofs.Literal.Printing

/-!
# How deep a literal may nest

The parser refuses the token that opens one list or object too many, and nothing else about a
literal that is written as it should be. So a tree is read or refused by its depth alone.

* `Derives.overflows`: where there is less room than the tree is deep, some token is refused.
* `parse_layOut_tooDeep_iff`: which trees are refused as too deep.
-/

namespace TaggedUnion.Literal

/-! ## Room -/

section Room

variable {tokens rest : List Token} {node : Node} {outer : List Frame}

theorem foldlM_append_of_eq_error {state : State} {stop : Stop}
    (h : tokens.foldlM State.step state = .error stop) :
    (tokens ++ rest).foldlM State.step state = .error stop := by
  rw [List.foldlM_append, h]
  rfl

/-- With less room than the tree is deep, some token is refused as too deep. -/
def Overflows (tokens : List Token) (node : Node) : Prop :=
  ∀ stack : List Frame, stack.length ≤ maxDepth → maxDepth < stack.length + node.depth →
    ∃ span, tokens.foldlM State.step (.value stack) = .error (.error (.tooDeep span))

/-- In an open list, the items in front of the first one that is too deep are read. -/
theorem exists_tooDeep_items {items : List (List Token × Node)} (start : Span)
    (before : List Node) (hitems : ∀ item ∈ items, Derives item.1 item.2)
    (hoverflows : ∀ item ∈ items, Overflows item.1 item.2) (hroom : outer.length < maxDepth)
    (hdeep : maxDepth < outer.length + 1 + depthOfItems (items.map Prod.snd)) :
    ∃ span, (items.flatMap Prod.fst).foldlM State.step (.value (.list start before :: outer)) =
      .error (.error (.tooDeep span)) := by
  induction items generalizing before with
  | nil =>
    simp only [List.map_nil, depthOfItems] at hdeep
    omega
  | cons item rest ih =>
    obtain ⟨hitem, hothers⟩ := List.forall_mem_cons.mp hitems
    obtain ⟨hfirst, hrest⟩ := List.forall_mem_cons.mp hoverflows
    rw [List.map_cons, depthOfItems] at hdeep
    by_cases hdepth : outer.length + 1 + item.2.depth ≤ maxDepth
    · have hread := hitem.reads (.list start before :: outer) (hitem.fits hdepth)
      rw [List.flatMap_cons, foldlM_append_of_eq_ok hread]
      exact ih (item.2 :: before) hothers hrest (by omega)
    · obtain ⟨span, hspan⟩ := hfirst (.list start before :: outer) (by simpa using hroom)
        (by simpa using hdepth)
      exact ⟨span, foldlM_append_of_eq_error hspan⟩

/-- In an open object, the fields in front of the first one that is too deep are read. -/
theorem exists_tooDeep_parts {parts : List FieldPart} (start : Span) (before : List Field)
    (hnames : ∀ part ∈ parts, part.name.kind = .name)
    (hcolons : ∀ part ∈ parts, part.colon.kind = .colon)
    (hvalues : ∀ part ∈ parts, Derives part.tokens part.value)
    (hoverflows : ∀ part ∈ parts, Overflows part.tokens part.value)
    (hroom : outer.length < maxDepth)
    (hdeep : maxDepth < outer.length + 1 + depthOfFields (parts.map FieldPart.field)) :
    ∃ span, (parts.flatMap FieldPart.word).foldlM State.step (.name start before outer) =
      .error (.error (.tooDeep span)) := by
  induction parts generalizing before with
  | nil =>
    simp only [List.map_nil, depthOfFields] at hdeep
    omega
  | cons part rest ih =>
    obtain ⟨hname, hnames⟩ := List.forall_mem_cons.mp hnames
    obtain ⟨hcolon, hcolons⟩ := List.forall_mem_cons.mp hcolons
    obtain ⟨hvalue, hothers⟩ := List.forall_mem_cons.mp hvalues
    obtain ⟨hfirst, hrest⟩ := List.forall_mem_cons.mp hoverflows
    rw [List.map_cons, depthOfFields_cons] at hdeep
    let frame : Frame := .object start before part.field.name
    have hhead : ((part :: rest).flatMap FieldPart.word).foldlM State.step
        (.name start before outer) =
          (part.tokens ++ rest.flatMap FieldPart.word).foldlM State.step
            (.value (frame :: outer)) := by
      rw [List.flatMap_cons, FieldPart.word, List.cons_append, List.cons_append,
        foldlM_cons_of_steps (.fieldName hname), foldlM_cons_of_steps (.colon hcolon)]
      rfl
    rw [hhead]
    by_cases hdepth : outer.length + 1 + part.value.depth ≤ maxDepth
    · have hread := hvalue.reads (frame :: outer) (hvalue.fits hdepth)
      rw [foldlM_append_of_eq_ok hread]
      exact ih (part.field :: before) hnames hcolons hothers hrest
        (by simp only [FieldPart.field] at hdeep; omega)
    · obtain ⟨span, hspan⟩ := hfirst (frame :: outer) (by simpa using hroom)
        (by simpa using hdepth)
      exact ⟨span, foldlM_append_of_eq_error hspan⟩

/-- Where there is no room, a token that opens is refused. -/
theorem foldlM_full {stack : List Frame} {token : Token} (hopens : token.kind.opens)
    (hroom : ¬stack.length < maxDepth) :
    (token :: rest).foldlM State.step (.value stack) = .error (.error (.tooDeep token.span)) := by
  have hstep : (State.value stack).step token = .error (.error (.tooDeep token.span)) := by
    cases hkind : token.kind <;> simp [hkind, TokenKind.opens] at hopens <;>
      simp [State.step, State.stepValue, State.opening, hkind, hroom]
  rw [List.foldlM_cons, hstep]
  rfl

/-- **Less room than the tree is deep is not enough.** -/
theorem Derives.overflows (h : Derives tokens node) : Overflows tokens node := by
  induction h with
  | single hmeaning =>
    intro stack hroom hdeep
    cases hmeaning <;> simp [Node.depth, Value.depth] at hdeep <;> omega
  | @list opening closing items hopening hclosing hitems ih =>
    intro stack _ hdeep
    have hopens : opening.kind.opens := by
      rw [hopening]
      rfl
    rw [Node.depth, Value.depth] at hdeep
    by_cases hroom : stack.length < maxDepth
    · obtain ⟨span, hspan⟩ := exists_tooDeep_items opening.span [] hitems ih hroom (by omega)
      refine ⟨span, ?_⟩
      rw [foldlM_cons_of_steps (.openList hopening hroom), foldlM_append_of_eq_error hspan]
    · exact ⟨opening.span, foldlM_full hopens hroom⟩
  | @object opening closing parts hopening hclosing hnames hcolons hvalues ih =>
    intro stack _ hdeep
    have hopens : opening.kind.opens := by
      rw [hopening]
      rfl
    rw [Node.depth, Value.depth] at hdeep
    by_cases hroom : stack.length < maxDepth
    · obtain ⟨span, hspan⟩ :=
        exists_tooDeep_parts opening.span [] hnames hcolons hvalues ih hroom (by omega)
      refine ⟨span, ?_⟩
      rw [foldlM_cons_of_steps (.openObject hopening hroom), foldlM_append_of_eq_error hspan]
    · exact ⟨opening.span, foldlM_full hopens hroom⟩

end Room

/-! ## Texts -/

section Texts

variable {spell : String → List Char} {node : Node} {pieces : List Piece} {last : List Char}

/-- The tokens of a tree, in any layout, are a literal with that tree. -/
theorem exists_rebuilds_layOut (hspell : ∀ contents, Quotes (spell contents) contents.toList)
    (hnode : node.IsWritable) (hpieces : pieces.map Piece.lexeme = node.lexemes spell)
    (hlayout : IsLayout pieces last) :
    ∃ tokens read, tokenize (String.ofList (layOut pieces last)) = .ok tokens ∧
      Rebuilds tokens read node := by
  have hproper : ∀ piece ∈ pieces, piece.lexeme.IsProper := fun piece hmem =>
    hnode.isProper hspell _ (hpieces ▸ List.mem_map_of_mem hmem)
  obtain ⟨tokens, htext, htokens⟩ := exists_tokenize_layOut hproper hlayout
  obtain ⟨read, hread⟩ := hnode.rebuilds hspell (htokens.trans hpieces)
  exact ⟨tokens, read, htext, hread⟩

/-- **A tree is refused for its depth exactly if it nests deeper than the limit.** This holds of
each text of the tree: strings may be spelled and tokens laid out in any way. -/
theorem parse_layOut_tooDeep_iff (hspell : ∀ contents, Quotes (spell contents) contents.toList)
    (hnode : node.IsWritable) (hpieces : pieces.map Piece.lexeme = node.lexemes spell)
    (hlayout : IsLayout pieces last) :
    (∃ span, parse (String.ofList (layOut pieces last)) = .error (.error (.tooDeep span))) ↔
      maxDepth < node.depth := by
  obtain ⟨tokens, read, htokens, hread⟩ := exists_rebuilds_layOut hspell hnode hpieces hlayout
  constructor
  · rintro ⟨span, h⟩
    by_contra hshallow
    have hfits : Shallow tokens := shallow_iff_fits.mpr (hread.fits 0 (by omega))
    have hparse := parse_eq_ok_iff.mpr ⟨tokens, htokens, hread.derives, hfits⟩
    rw [h] at hparse
    cases hparse
  · intro hdeep
    rw [← depth_eq_of_spanless hread.same] at hdeep
    obtain ⟨span, hspan⟩ := hread.derives.overflows [] (Nat.zero_le _) (by simpa using hdeep)
    refine ⟨span, ?_⟩
    simp only [parse, htokens, parseTokens, hspan]
    rfl

end Texts

end TaggedUnion.Literal
