import TaggedUnion.Proofs.Literal.Lexing
import TaggedUnion.Proofs.Literal.Parsing

/-!
# Spans quote literals

The span of a literal covers its own text and nothing else: the text of the span, taken by itself,
is the same literal.

* `Node.Part`: the literals inside a literal.
* `Node.Nests`: the spans of the parts lie inside the span of the whole, in order.
* `Derives.span`: the span of a literal goes from its first token to its last.
* `parse_slice`: every literal inside a literal that was read is quoted by its span.
-/

namespace TaggedUnion

namespace Span

/-- One span lies inside the other. -/
def Within (inner outer : Span) : Prop := outer.start ≤ inner.start ∧ inner.stop ≤ outer.stop

/-- One span ends where the other starts, or before that. -/
def Before (a b : Span) : Prop := a.stop ≤ b.start

theorem merge_eq {a b : Span} (hstart : a.start ≤ b.start) (hstop : a.stop ≤ b.stop) :
    a.merge b = ⟨a.start, b.stop⟩ := by
  rw [merge, Nat.min_eq_left hstart, Nat.max_eq_right hstop]

end Span

namespace Literal

/-! ## Literals at another position -/

mutual

/-- The literal with all its spans that much further to the front. -/
def Node.shiftLeft (distance : Nat) : Node → Node
  | ⟨value, span⟩ => ⟨value.shiftLeft distance, span.shiftLeft distance⟩

/-- `Node.shiftLeft` for the parts of a literal. -/
def Value.shiftLeft (distance : Nat) : Value → Value
  | .list items => .list (shiftItems distance items)
  | .object fields => .object (shiftFields distance fields)
  | value => value

/-- `Node.shiftLeft` for each item. -/
def shiftItems (distance : Nat) : List Node → List Node
  | [] => []
  | item :: rest => item.shiftLeft distance :: shiftItems distance rest

/-- `Node.shiftLeft` for each field. -/
def shiftFields (distance : Nat) : List Field → List Field
  | [] => []
  | ⟨name, value, span⟩ :: rest =>
    ⟨⟨name.text, name.span.shiftLeft distance⟩, value.shiftLeft distance,
      span.shiftLeft distance⟩ :: shiftFields distance rest

end

/-- The field with all its spans that much further to the front. -/
def Field.shiftLeft (distance : Nat) (field : Field) : Field :=
  ⟨⟨field.name.text, field.name.span.shiftLeft distance⟩, field.value.shiftLeft distance,
    field.span.shiftLeft distance⟩

section Shift

variable {distance : Nat} {tokens : List Token}

theorem shiftItems_eq_map {items : List Node} :
    shiftItems distance items = items.map (Node.shiftLeft distance) := by
  induction items with
  | nil => rfl
  | cons item rest ih => rw [shiftItems, ih, List.map_cons]

theorem shiftFields_eq_map {fields : List Field} :
    shiftFields distance fields = fields.map (Field.shiftLeft distance) := by
  induction fields with
  | nil => rfl
  | cons field rest ih =>
    cases field
    rw [shiftFields, ih, List.map_cons, Field.shiftLeft]

theorem Node.span_shiftLeft {node : Node} :
    (node.shiftLeft distance).span = node.span.shiftLeft distance := by
  cases node
  rw [shiftLeft]

/-- The field as it is written that much further to the front. -/
def FieldPart.shiftLeft (distance : Nat) (part : FieldPart) : FieldPart :=
  ⟨part.name.shiftLeft distance, part.colon.shiftLeft distance,
    part.tokens.map (Token.shiftLeft distance), part.value.shiftLeft distance⟩

theorem FieldPart.word_shiftLeft {part : FieldPart} :
    (part.shiftLeft distance).word = part.word.map (Token.shiftLeft distance) := rfl

theorem FieldPart.field_shiftLeft {part : FieldPart} :
    (part.shiftLeft distance).field = part.field.shiftLeft distance := by
  simp only [field, Field.shiftLeft, Span.shiftLeft_merge, ← Node.span_shiftLeft]
  rfl

/-- A token says the same wherever it stands. -/
theorem Says.shift {token : Token} {value : Value} (h : Says token value) :
    Says (token.shiftLeft distance) (value.shiftLeft distance) := by
  cases h with
  | int => exact .int
  | float => exact .float
  | string hspells => exact .string hspells
  | true => exact .true
  | false => exact .false
  | null => exact .null
  | enum htrue hfalse hnull => exact .enum htrue hfalse hnull

/-- **A literal is the same wherever it stands.** -/
theorem Derives.shift {node : Node} (h : Derives tokens node) :
    Derives (tokens.map (Token.shiftLeft distance)) (node.shiftLeft distance) := by
  induction h with
  | single h => exact .single h.shift
  | @list opening closing items hopening hclosing _ ih =>
    have hopening' : (opening.shiftLeft distance).kind = .bracketOpen := hopening
    have hclosing' : (closing.shiftLeft distance).kind = .bracketClose := hclosing
    have hitems : ∀ item ∈ items.map fun item : List Token × Node =>
        (item.1.map (Token.shiftLeft distance), item.2.shiftLeft distance),
          Derives item.1 item.2 := List.forall_mem_map.mpr ih
    simpa [Node.shiftLeft, Value.shiftLeft, shiftItems_eq_map, Span.shiftLeft_merge,
      List.map_flatMap, List.flatMap_map, Function.comp_def, Token.shiftLeft] using
      Derives.list hopening' hclosing' hitems
  | @object opening closing parts hopening hclosing hnames hcolons _ ih =>
    have hopening' : (opening.shiftLeft distance).kind = .braceOpen := hopening
    have hclosing' : (closing.shiftLeft distance).kind = .braceClose := hclosing
    have hnames' : ∀ part ∈ parts.map (FieldPart.shiftLeft distance), part.name.kind = .name :=
      List.forall_mem_map.mpr hnames
    have hcolons' : ∀ part ∈ parts.map (FieldPart.shiftLeft distance), part.colon.kind = .colon :=
      List.forall_mem_map.mpr hcolons
    have hvalues' : ∀ part ∈ parts.map (FieldPart.shiftLeft distance),
        Derives part.tokens part.value := List.forall_mem_map.mpr ih
    simpa [Node.shiftLeft, Value.shiftLeft, shiftFields_eq_map, Span.shiftLeft_merge,
      List.map_flatMap, List.flatMap_map, Function.comp_def, FieldPart.word_shiftLeft,
      FieldPart.field_shiftLeft, Token.shiftLeft] using
      Derives.object hopening' hclosing' hnames' hcolons' hvalues'

theorem openings_shift : openings (tokens.map (Token.shiftLeft distance)) = openings tokens := by
  unfold openings
  rw [List.countP_map]
  rfl

theorem closings_shift : closings (tokens.map (Token.shiftLeft distance)) = closings tokens := by
  unfold closings
  rw [List.countP_map]
  rfl

theorem Shallow.shift (h : Shallow tokens) : Shallow (tokens.map (Token.shiftLeft distance)) := by
  intro before hinitial
  obtain ⟨before, hbefore, rfl⟩ := List.prefix_map_iff.mp hinitial
  rw [openings_shift, closings_shift]
  exact h before hbefore

end Shift

/-! ## Literals inside a literal -/

/-- A literal with the literals inside it, at any depth. -/
inductive Node.Part : Node → Node → Prop where
  | here {node : Node} : Part node node
  | item {node item part : Node} {items : List Node} (hvalue : node.value = .list items)
    (hmem : item ∈ items) (h : Part item part) : Part node part
  | field {node part : Node} {field : Field} {fields : List Field}
    (hvalue : node.value = .object fields) (hmem : field ∈ fields) (h : Part field.value part) :
    Part node part

section Parts

variable {α : Type} {word : α → List Token} {parts : List α}

/-- The tokens of one part stand between those of the others, which close what they open. -/
theorem flatMap_split {part : α} (hmem : part ∈ parts)
    (hbalanced : ∀ part ∈ parts, openings (word part) = closings (word part)) :
    ∃ left right, parts.flatMap word = left ++ (word part ++ right) ∧
      openings left = closings left := by
  obtain ⟨before, after, rfl⟩ := List.append_of_mem hmem
  refine ⟨before.flatMap word, after.flatMap word, by simp, balanced_flatMap fun part hmem => ?_⟩
  exact hbalanced part (List.mem_append_left _ hmem)

/-- A literal inside a literal has tokens of its own, and what is closed in front of them was
opened there. -/
theorem Derives.part {tokens : List Token} {node part : Node} (h : Derives tokens node)
    (hpart : node.Part part) : ∃ before inner after, tokens = before ++ (inner ++ after) ∧
      Derives inner part ∧ closings before ≤ openings before := by
  induction hpart generalizing tokens with
  | here => exact ⟨[], tokens, [], by simp, h, Nat.le_refl _⟩
  | item hvalue hmem _ ih =>
    cases h with
    | single h => cases h <;> simp at hvalue
    | @list opening closing items hopening hclosing hitems =>
      cases hvalue
      obtain ⟨item, hitem, rfl⟩ := List.mem_map.mp hmem
      obtain ⟨before, inner, after, htokens, hinner, hbefore⟩ := ih (hitems item hitem)
      obtain ⟨left, right, hsplit, hleft⟩ := flatMap_split hitem
        fun item hmem => (hitems item hmem).balanced
      refine ⟨opening :: (left ++ before), inner, after ++ (right ++ [closing]), ?_, hinner, ?_⟩
      · rw [hsplit, htokens]
        simp
      · simp [openings_cons, closings_cons, hopening, TokenKind.opens, TokenKind.closes]
        omega
    | object => simp at hvalue
  | field hvalue hmem _ ih =>
    cases h with
    | single h => cases h <;> simp at hvalue
    | list => simp at hvalue
    | @object opening closing parts hopening hclosing hnames hcolons hvalues =>
      cases hvalue
      obtain ⟨part, hpart, rfl⟩ := List.mem_map.mp hmem
      obtain ⟨before, inner, after, htokens, hinner, hbefore⟩ := ih (hvalues part hpart)
      have hbalanced : ∀ part ∈ parts, openings part.word = closings part.word := fun part hmem =>
        FieldPart.balanced (hnames part hmem) (hcolons part hmem) (hvalues part hmem).balanced
      obtain ⟨left, right, hsplit, hleft⟩ := flatMap_split hpart hbalanced
      refine ⟨opening :: (left ++ ([part.name, part.colon] ++ before)), inner,
        after ++ (right ++ [closing]), ?_, hinner, ?_⟩
      · rw [hsplit, FieldPart.word, htokens]
        simp
      · have hhead := FieldPart.balanced_head (hnames part hpart) (hcolons part hpart)
        rw [openings_cons, closings_cons, openings_append, closings_append, openings_append,
          closings_append, hhead, hleft]
        simp only [hopening, TokenKind.opens, TokenKind.closes, if_true, if_false,
          Bool.false_eq_true]
        omega

end Parts

/-! ## Where the parts stand -/

/-- What stands directly in a list or object lies inside it, in the order of the text and without
overlap, and the same holds for the name and the value of each field. -/
structure Node.Nests (node : Node) : Prop where
  items : ∀ items, node.value = .list items →
    (∀ item ∈ items, item.span.Within node.span) ∧
      items.Pairwise fun item next => item.span.Before next.span
  fields : ∀ fields, node.value = .object fields →
    (∀ field ∈ fields, field.span.Within node.span ∧ field.name.span.Within field.span ∧
      field.value.span.Within field.span ∧ field.name.span.Before field.value.span) ∧
        fields.Pairwise fun field next => field.span.Before next.span

/-- A span covers tokens that stand from a position on: it does not start before the position, and
it ends with the tokens. -/
structure Covers (position : Nat) (tokens : List Token) (span : Span) : Prop where
  start : position ≤ span.start
  nonempty : span.start < span.stop
  stop : span.stop = endOf position tokens

section Spans

variable {position : Nat} {tokens : List Token}

/-- What stands in brackets or braces stands between the two, and both are covered. -/
theorem bracketed {opening closing : Token} {inner : List Token}
    (h : Placed position (opening :: (inner ++ [closing]))) :
    opening.span.merge closing.span = ⟨opening.span.start, closing.span.stop⟩ ∧
      Covers position (opening :: (inner ++ [closing])) (opening.span.merge closing.span) ∧
      Placed opening.span.stop inner := by
  obtain ⟨hstart, hopening, hinner⟩ := h
  obtain ⟨hinner, hend, hclosing, -⟩ := placed_append.mp hinner
  have hle := hinner.le_endOf
  have hmerge : opening.span.merge closing.span = ⟨opening.span.start, closing.span.stop⟩ :=
    Span.merge_eq (by omega) (by omega)
  refine ⟨hmerge, ⟨?_, ?_, ?_⟩, hinner⟩
  · rw [hmerge]
    exact hstart
  · rw [hmerge]
    simp only []
    omega
  · rw [hmerge, endOf, endOf_append]
    rfl

/-- What lies between brackets or braces lies inside the span from one to the other. -/
theorem within_bracketed {opening closing : Token} {inner : List Token} {span : Span}
    (h : Placed position (opening :: (inner ++ [closing])))
    (hstart : opening.span.stop ≤ span.start)
    (hstop : span.stop ≤ endOf opening.span.stop inner) :
    span.Within (opening.span.merge closing.span) := by
  obtain ⟨hmerge, -, -⟩ := bracketed h
  obtain ⟨-, hopening, hinner⟩ := h
  obtain ⟨-, hend, hclosing, -⟩ := placed_append.mp hinner
  rw [hmerge]
  constructor <;> simp only [] <;> omega

/-- The span of a literal starts with its first token. -/
theorem Derives.start_eq {node : Node} (h : Derives tokens node)
    (hplaced : Placed position tokens) :
    ∃ token rest, tokens = token :: rest ∧ node.span.start = token.span.start := by
  cases h with
  | single => exact ⟨_, _, rfl, rfl⟩
  | list => exact ⟨_, _, rfl, by rw [(bracketed hplaced).1]⟩
  | object => exact ⟨_, _, rfl, by rw [(bracketed hplaced).1]⟩

/-- **The span of a literal covers its tokens.** -/
theorem Derives.covers {node : Node} (h : Derives tokens node) (hplaced : Placed position tokens) :
    Covers position tokens node.span := by
  cases h with
  | single =>
    obtain ⟨hstart, hspan, -⟩ := hplaced
    exact ⟨hstart, hspan, rfl⟩
  | list => exact (bracketed hplaced).2.1
  | object => exact (bracketed hplaced).2.1

/-- The span of a field covers its name, its colon and its value, which stand in this order. -/
theorem FieldPart.covers {part : FieldPart} (h : Derives part.tokens part.value)
    (hplaced : Placed position part.word) : Covers position part.word part.field.span ∧
      part.name.span.Within part.field.span ∧ part.value.span.Within part.field.span ∧
        part.name.span.Before part.value.span := by
  obtain ⟨hstart, hname, hbetween, hcolon, hvalue⟩ := hplaced
  have hcovers := h.covers hvalue
  have hvalueStart := hcovers.start
  have hvalueSpan := hcovers.nonempty
  have hmerge : part.field.span = ⟨part.name.span.start, part.value.span.stop⟩ :=
    Span.merge_eq (by omega) (by omega)
  rw [hmerge]
  refine ⟨⟨hstart, ?_, hcovers.stop⟩, ⟨Nat.le_refl _, ?_⟩, ⟨?_, Nat.le_refl _⟩, ?_⟩ <;>
    simp only [Span.Before] <;> omega

/-- Parts one behind the other, each covered by its span, lie inside the whole and in order. -/
theorem pairwise_of_placed {α : Type} {word : α → List Token} {parts : List α} (span : α → Span)
    (hcovers : ∀ part ∈ parts, ∀ position, Placed position (word part) →
      Covers position (word part) (span part))
    (h : Placed position (parts.flatMap word)) :
    (∀ part ∈ parts, ∃ position', Placed position' (word part) ∧ position ≤ (span part).start ∧
      (span part).stop ≤ endOf position (parts.flatMap word)) ∧
        parts.Pairwise fun part next => (span part).Before (span next) := by
  induction parts generalizing position with
  | nil => exact ⟨nofun, .nil⟩
  | cons part rest ih =>
    obtain ⟨hpart, hothers⟩ := List.forall_mem_cons.mp hcovers
    rw [List.flatMap_cons] at h ⊢
    obtain ⟨hfirst, hrest⟩ := placed_append.mp h
    obtain ⟨hinside, hpairwise⟩ := ih hothers hrest
    have hspan := hpart position hfirst
    have hend := hrest.le_endOf
    rw [endOf_append]
    refine ⟨List.forall_mem_cons.mpr ⟨⟨position, hfirst, hspan.start, ?_⟩, fun next hmem => ?_⟩,
      List.pairwise_cons.mpr ⟨fun next hmem => ?_, hpairwise⟩⟩
    · rw [hspan.stop]
      exact hend
    · obtain ⟨position', hplaced, hstart, hstop⟩ := hinside next hmem
      exact ⟨position', hplaced, Nat.le_trans hfirst.le_endOf hstart, hstop⟩
    · obtain ⟨-, -, hstart, -⟩ := hinside next hmem
      exact Nat.le_trans (Nat.le_of_eq hspan.stop) hstart

/-- The parts of a literal lie inside it, in order. -/
theorem Derives.nests {node : Node} (h : Derives tokens node) (hplaced : Placed position tokens) :
    node.Nests := by
  cases h with
  | single h => constructor <;> intro _ hvalue <;> cases h <;> simp at hvalue
  | list _ _ hitems =>
    obtain ⟨-, -, hinner⟩ := bracketed hplaced
    obtain ⟨hinside, hpairwise⟩ := pairwise_of_placed (fun item => item.2.span)
      (fun item hmem _ hplaced => (hitems item hmem).covers hplaced) hinner
    refine ⟨fun _ hvalue => ?_, nofun⟩
    cases hvalue
    refine ⟨List.forall_mem_map.mpr fun item hmem => ?_, List.pairwise_map.mpr hpairwise⟩
    obtain ⟨_, -, hstart, hstop⟩ := hinside item hmem
    exact within_bracketed hplaced hstart hstop
  | object _ _ _ _ hvalues =>
    obtain ⟨-, -, hinner⟩ := bracketed hplaced
    obtain ⟨hinside, hpairwise⟩ := pairwise_of_placed (fun part => part.field.span)
      (fun part hmem _ hplaced => (FieldPart.covers (hvalues part hmem) hplaced).1) hinner
    refine ⟨nofun, fun _ hvalue => ?_⟩
    cases hvalue
    refine ⟨List.forall_mem_map.mpr fun part hmem => ?_, List.pairwise_map.mpr hpairwise⟩
    obtain ⟨_, hpart, hstart, hstop⟩ := hinside part hmem
    exact ⟨within_bracketed hplaced hstart hstop,
      (FieldPart.covers (hvalues part hmem) hpart).2⟩

end Spans

/-! ## What a span quotes -/

/-- **Every span quotes its literal.** Of a text that is read as a literal, and of each literal
inside it: what stands directly in a list or object lies inside it, in order and without overlap,
and the text of the span by itself is read as the same literal, with all spans moved to the front by
where it starts. -/
theorem parse_slice {source : Source} {node part : Node} (h : parse source.body = .ok node)
    (hpart : node.Part part) : part.Nests ∧
      parse (source.slice part.span) = .ok (part.shiftLeft part.span.start) := by
  obtain ⟨tokens, htokens, hderives, hshallow⟩ := parse_eq_ok_iff.mp h
  obtain ⟨before, inner, after, rfl, hinner, hbefore⟩ := hderives.part hpart
  -- The text splits as the tokens do, and what stands in front of the first token is cut off too.
  obtain ⟨front, behind, hbody, -, -, hbehind⟩ := (tokenizeFrom_eq_ok_iff.mp htokens).split
  obtain ⟨middle, rest, rfl, hmiddle, hstop, -⟩ := hbehind.split
  have hplaced := hmiddle.placed
  obtain ⟨token, others, rfl, hstart⟩ := hinner.start_eq hplaced
  obtain ⟨gap, text, rfl, hgap, htext⟩ := hmiddle.skip
  have hcut : source.body.toList = (front ++ gap) ++ (text ++ rest) := by
    rw [hbody]
    simp
  have hslice : source.slice part.span = String.ofList text := by
    refine Source.slice_eq hcut ?_ ?_
    · rw [hstart, hgap, Text.byteSize_append, Nat.zero_add]
    · rw [(hinner.covers hplaced).stop, hstop, hstart, hgap, Text.byteSize_append]
      omega
  refine ⟨hinner.nests hplaced, ?_⟩
  rw [hslice, parse_eq_ok_iff]
  refine ⟨(token :: others).map (Token.shiftLeft part.span.start), ?_, hinner.shift, ?_⟩
  · rw [tokenize, String.toList_ofList, tokenizeFrom_eq_ok_iff, hstart]
    exact Lexed.shift ((Nat.zero_add _).symm ▸ htext)
  · refine Shallow.shift fun part hinitial => ?_
    have := hshallow (before ++ part)
      ((List.prefix_append_right_inj before).mpr (hinitial.trans (List.prefix_append _ after)))
    rw [openings_append, closings_append] at this
    omega

theorem parse_slice_value :
    parse (Source.slice ⟨"input", "\x7ba: x #,\n b: [y]\x7d"⟩ ⟨13, 16⟩) =
      .ok ⟨.list [⟨.enum "y", ⟨1, 2⟩⟩], ⟨0, 3⟩⟩ := by
  let source : Source := ⟨"input", "\x7ba: x #,\n b: [y]\x7d"⟩
  let field : Field :=
    ⟨⟨"b", ⟨10, 11⟩⟩, ⟨.list [⟨.enum "y", ⟨14, 15⟩⟩], ⟨13, 16⟩⟩, ⟨10, 16⟩⟩
  let node : Node :=
    ⟨.object [⟨⟨"a", ⟨1, 2⟩⟩, ⟨.enum "x", ⟨4, 5⟩⟩, ⟨1, 5⟩⟩, field], ⟨0, 17⟩⟩
  have h : parse source.body = .ok node := by
    cbv
  have hpart : node.Part field.value := .field rfl (by simp) .here
  exact (parse_slice h hpart).2

end Literal

end TaggedUnion
