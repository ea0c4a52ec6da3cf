import TaggedUnion.Proofs.Json.Spelling
import TaggedUnion.Proofs.Literal.Nesting

/-!
# How deep JSON may nest

The reader of JSON refuses the bracket that opens one array or object too many, and reads every tree
that is not as deep.

* `Leads`: the reader comes to a given point, or stops at a bracket.
* `Spells.reads`: a tree is read or stops the reader by its depth alone.
* `parse_tooDeep_iff`: which trees are refused as too deep.
-/

namespace TaggedUnion.Json

open Literal (Node depthOfItems depthOfFields)

/-! ## Where the reader comes -/

/-- Reading comes to a given point if the condition holds, and stops at a bracket otherwise. -/
def Leads (fits : Prop) (start : Except Fault (Json × List Char))
    (next : Json → Except Fault (Json × List Char)) : Prop :=
  (fits → ∃ value, start = next value) ∧
    (¬fits → ∃ fault, start = .error fault ∧ fault.cause = .tooDeep)

/-- A text is read as a value, whatever is open around it, if the tree is not too deep there. -/
def Reads (outside : Nat) (text : List Char) (node : Node) : Prop :=
  ∀ (stack : List Frame) (rest : List Char), EndsValue rest →
    outside + stack.length < depthLimit →
      Leads (outside + stack.length + node.depth < depthLimit)
        (run outside stack .value (text ++ rest)) fun value => run outside stack (.after value) rest

section Leading

variable {p q : Prop} {start : Except Fault (Json × List Char)}
  {middle last : Json → Except Fault (Json × List Char)}

theorem Leads.trans (h : Leads p start middle) (h' : ∀ value, Leads q (middle value) last) :
    Leads (p ∧ q) start last := by
  by_cases hp : p
  · obtain ⟨value, rfl⟩ := h.1 hp
    simpa only [hp, true_and] using h' value
  · exact ⟨fun hboth => absurd hboth.1 hp, fun _ => h.2 hp⟩

theorem leads_of_step {outside : Nat} {stack stack' : List Frame} {task : Task}
    {cs rest : List Char} {value : Json} (hp : p)
    (h : step outside stack task cs = .ok (.next stack' (.after value) rest)) :
    Leads p (run outside stack task cs) fun value => run outside stack' (.after value) rest :=
  ⟨fun _ => ⟨value, run_next h⟩, fun hnot => absurd hp hnot⟩

theorem Leads.congr (h : Leads p start middle) (hpq : p ↔ q) : Leads q start middle :=
  propext hpq ▸ h

end Leading

/-! ## Scalars -/

section Scalars

variable {outside : Nat} {c : Char} {text rest : List Char} {node : Node}

/-- A scalar is read wherever there is room for a value. -/
theorem reads_scalar (hblank : isBlank c = false) (hbracket : ¬(c = '[' ∨ c = '\x7b'))
    (hdepth : node.depth = 0)
    (hread : ∀ rest, EndsValue rest → ∃ value, readScalar c (text ++ rest) = .ok (value, rest)) :
    Reads outside (c :: text) node := by
  intro stack rest hrest hroom
  obtain ⟨value, hvalue⟩ := hread rest hrest
  have hstep : step outside stack .value (c :: text ++ rest) =
      .ok (.next stack (.after value) rest) := by
    simp only [List.cons_append, step, stepValue, skipBlanks_cons hblank, if_neg hbracket, hvalue]
  exact leads_of_step (by omega) hstep

theorem reads_keyword {letters : List Char} {value : Json} (hblank : isBlank c = false)
    (hbracket : ¬(c = '[' ∨ c = '\x7b')) (hdepth : node.depth = 0)
    (hscalar : readScalar c = readKeyword letters value) : Reads outside (c :: letters) node :=
  reads_scalar hblank hbracket hdepth fun _ _ => ⟨value, by rw [hscalar, readKeyword_append]⟩

theorem reads_number {n : Numeral} (hn : n.IsProper) (hnumber : (Number.ofNumeral? n).isSome)
    (hdepth : node.depth = 0) : Reads outside n.text node := by
  obtain ⟨number, hnumber⟩ := Option.isSome_iff_exists.mp hnumber
  obtain ⟨c, cs, htext, hstart⟩ := hn.text_eq_cons
  obtain ⟨hblank, -, hbracket⟩ := not_blank_of_start hstart
  rw [htext]
  exact reads_scalar hblank hbracket hdepth fun rest hrest =>
    ⟨_, readScalar_number hn hnumber htext hstart hrest.follows⟩

end Scalars

/-! ## Trees -/

section Trees

variable {outside : Nat} {outer : List Frame} {gap rest : List Char}

/-- What is known of a part of a container that is read: it stands between blanks, and it is read
or stops the reader by its depth. -/
structure Slot.Holds (outside : Nat) (slot : Slot) (node : Node) : Prop where
  spaced : slot.IsSpaced
  spells : Spells slot.text node
  reads : Reads outside slot.text node

/-- A part of a container is read, with what follows it still to come. -/
theorem Slot.Holds.leads {frame : Frame} {slot : Slot} {node : Node}
    (h : slot.Holds outside node) (hroom : outside + outer.length + 1 < depthLimit)
    (hrest : EndsValue rest) :
    Leads (outside + outer.length + 1 + node.depth < depthLimit)
      (run outside (frame :: outer) .value (slot.text ++ rest))
      fun value => run outside (frame :: outer) (.after value) rest := by
  have := h.reads (frame :: outer) rest hrest (by simpa [Nat.add_assoc] using hroom)
  simpa [Nat.add_assoc] using this

/-- The blanks in front of a value say nothing. -/
theorem Slot.Holds.run_chars {stack : List Frame} {slot : Slot} {node : Node}
    (h : slot.Holds outside node) : run outside stack .value (slot.chars ++ rest) =
      run outside stack .value (slot.text ++ (slot.after ++ rest)) := by
  obtain ⟨c, cs, htext, hblank, -⟩ := h.spells.exists_cons
  simp only [Slot.chars, htext, List.append_assoc, List.cons_append]
  exact run_value_append h.spaced.1 hblank

/-- Behind an item the array is read to its end, if the other items are not too deep. -/
theorem leads_items {others : List (Slot × Node)}
    (hitems : ∀ item ∈ others, item.1.Holds outside item.2)
    (hroom : outside + outer.length + 1 < depthLimit) (items : List Json) (value : Json)
    (hgap : Blank gap) :
    Leads (∀ item ∈ others, outside + outer.length + 1 + item.2.depth < depthLimit)
      (run outside (.array items :: outer) (.after value) (gap ++ itemsText others rest))
      fun value => run outside outer (.after value) rest := by
  induction others generalizing items value gap with
  | nil =>
    have hstep : step outside (.array items :: outer) (.after value) (gap ++ itemsText [] rest) =
        .ok (.next outer (.after (.array (value :: items).reverse)) rest) := by
      simp only [step, itemsText, List.flatMap_nil, List.nil_append, readItemStart_close hgap,
        afterItemStart]
    exact leads_of_step (by simp) hstep
  | cons item others ih =>
    obtain ⟨hitem, hothers⟩ := List.forall_mem_cons.mp hitems
    obtain ⟨hbefore, hafter⟩ := hitem.spaced
    have htext : itemsText (item :: others) rest =
        ',' :: (item.1.before ++ (item.1.text ++ (item.1.after ++ itemsText others rest))) := by
      simp [itemsText, Slot.chars]
    have hrun : run outside (.array items :: outer) (.after value)
        (gap ++ itemsText (item :: others) rest) =
          run outside (.array (value :: items) :: outer) .value
            (item.1.text ++ (item.1.after ++ itemsText others rest)) := by
      obtain ⟨c, cs, hcons, hblank, hclose⟩ := hitem.spells.exists_cons
      refine run_next ?_
      rw [htext, hcons, List.cons_append]
      simp only [step, readItemStart_next hgap hbefore hblank hclose, afterItemStart]
    rw [hrun]
    simp only [List.forall_mem_cons]
    exact (hitem.leads hroom (endsValue_itemsText hafter)).trans fun value' =>
      ih hothers _ value' hafter

/-- What is known of a member of an object that is read: its name, and what its value holds. -/
structure Member.Holds (outside : Nat) (member : Member) : Prop where
  spaced : member.IsSpaced
  value : member.value.Holds outside member.field.value

/-- Behind a member the object is read to its end, if the other values are not too deep. -/
theorem leads_members {others : List Member} (hmembers : ∀ member ∈ others, member.Holds outside)
    (hroom : outside + outer.length + 1 < depthLimit) (members : List (String × Json))
    (name : String) (value : Json) (hgap : Blank gap) :
    Leads (∀ member ∈ others, outside + outer.length + 1 + member.field.value.depth < depthLimit)
      (run outside (.object members name :: outer) (.after value) (gap ++ membersText others rest))
      fun value => run outside outer (.after value) rest := by
  induction others generalizing members name value gap with
  | nil =>
    have hstep : step outside (.object members name :: outer) (.after value)
        (gap ++ membersText [] rest) =
          .ok (.next outer (.after (.object ((name, value) :: members).reverse)) rest) := by
      simp only [step, membersText, List.flatMap_nil, List.nil_append,
        readMemberStart_close hgap, afterMemberStart]
    exact leads_of_step (by simp) hstep
  | cons member others ih =>
    obtain ⟨hmember, hothers⟩ := List.forall_mem_cons.mp hmembers
    have htext : membersText (member :: others) rest = ',' :: (member.name.before ++
        '"' :: (member.name.text ++ '"' :: (member.name.after ++
          ':' :: (member.value.chars ++ membersText others rest)))) := by
      simp [membersText, Member.chars]
    have hrun : run outside (.object members name :: outer) (.after value)
        (gap ++ membersText (member :: others) rest) =
          run outside (.object ((name, value) :: members) member.field.name.text :: outer) .value
            (member.value.chars ++ membersText others rest) := by
      obtain ⟨hname, -, hquotes, hplain⟩ := hmember.spaced
      refine run_next ?_
      rw [htext]
      simp only [step, readMemberStart_next hgap hname.1,
        afterMemberStart_name hquotes hplain hname.2]
    have hafter := hmember.value.spaced.2
    rw [hrun, hmember.value.run_chars]
    simp only [List.forall_mem_cons]
    exact (hmember.value.leads hroom (endsValue_membersText hafter)).trans fun value' =>
      ih hothers _ _ value' hafter

/-- A container is within the limit if its bracket is and its parts are. -/
theorem container_lt_iff {α : Type} {room depth : Nat} {parts : List α} {depthOf : α → Nat}
    (h : ∀ limit, depth ≤ limit ↔ ∀ part ∈ parts, depthOf part ≤ limit) :
    room + (depth + 1) < depthLimit ↔
      room + 1 < depthLimit ∧ ∀ part ∈ parts, room + 1 + depthOf part < depthLimit := by
  constructor
  · intro hdepth
    refine ⟨by omega, fun part hmem => ?_⟩
    have := (h depth).mp le_rfl part hmem
    omega
  · rintro ⟨hroom, hparts⟩
    have : depth ≤ depthLimit - (room + 2) := (h _).mpr fun part hmem => by
      have := hparts part hmem
      omega
    omega

/-- An opening bracket takes room for one container, and stops the reader where there is none. -/
theorem leads_opening {p : Prop} {stack : List Frame} {c : Char} {cs : List Char}
    {next : Json → Except Fault (Json × List Char)} (hbracket : c = '[' ∨ c = '\x7b')
    (h : outside + stack.length + 1 < depthLimit →
      Leads p (run outside stack .value (c :: cs)) next) :
    Leads (outside + stack.length + 1 < depthLimit ∧ p) (run outside stack .value (c :: cs))
      next := by
  by_cases hroom : outside + stack.length + 1 < depthLimit
  · exact (h hroom).congr (by simp [hroom])
  · have hblank : isBlank c = false := by
      rcases hbracket with rfl | rfl <;> rfl
    exact ⟨fun hfits => absurd hfits.1 hroom, fun _ => run_full hbracket hblank hroom⟩

/-- An array is read if there is room for it and its items are not too deep. -/
theorem leads_array {first : Slot × Node} {others : List (Slot × Node)} (stack : List Frame)
    (rest : List Char) (hitems : ∀ item ∈ first :: others, item.1.Holds outside item.2) :
    Leads (outside + stack.length + 1 < depthLimit ∧
        ∀ item ∈ first :: others, outside + stack.length + 1 + item.2.depth < depthLimit)
      (run outside stack .value ('[' :: (first.1.chars ++ itemsText others rest)))
      fun value => run outside stack (.after value) rest := by
  refine leads_opening (.inl rfl) fun hroom => ?_
  obtain ⟨hitem, hothers⟩ := List.forall_mem_cons.mp hitems
  obtain ⟨hbefore, hafter⟩ := hitem.spaced
  have hrun : run outside stack .value ('[' :: (first.1.chars ++ itemsText others rest)) =
      run outside (.array [] :: stack) .value
        (first.1.text ++ (first.1.after ++ itemsText others rest)) := by
    obtain ⟨c, cs, htext, hblank, hclose⟩ := hitem.spells.exists_cons
    refine run_next ?_
    simp only [step_openArray hroom, Slot.chars, htext, List.append_assoc, List.cons_append,
      readItemStart_first hbefore hblank hclose, afterItemStart]
  rw [hrun]
  simp only [List.forall_mem_cons]
  exact (hitem.leads hroom (endsValue_itemsText hafter)).trans fun value =>
    leads_items hothers hroom [] value hafter

/-- An object is read if there is room for it and its values are not too deep. -/
theorem leads_object {first : Member} {others : List Member} (stack : List Frame)
    (rest : List Char) (hmembers : ∀ member ∈ first :: others, member.Holds outside) :
    Leads (outside + stack.length + 1 < depthLimit ∧ ∀ member ∈ first :: others,
        outside + stack.length + 1 + member.field.value.depth < depthLimit)
      (run outside stack .value ('\x7b' :: (first.chars ++ membersText others rest)))
      fun value => run outside stack (.after value) rest := by
  refine leads_opening (.inr rfl) fun hroom => ?_
  obtain ⟨hmember, hothers⟩ := List.forall_mem_cons.mp hmembers
  have hrun : run outside stack .value ('\x7b' :: (first.chars ++ membersText others rest)) =
      run outside (.object [] first.field.name.text :: stack) .value
        (first.value.chars ++ membersText others rest) := by
    obtain ⟨hname, -, hquotes, hplain⟩ := hmember.spaced
    refine run_next ?_
    simp only [step_openObject hroom, Member.chars, List.append_assoc, List.cons_append,
      readMemberStart_first hname.1, afterMemberStart_name hquotes hplain hname.2]
  have hafter := hmember.value.spaced.2
  rw [hrun, hmember.value.run_chars]
  simp only [List.forall_mem_cons]
  exact (hmember.value.leads hroom (endsValue_membersText hafter)).trans fun value =>
    leads_members hothers hroom [] _ value hafter

/-- **A tree is read or stops the reader by its depth alone.** -/
theorem Spells.reads {text : List Char} {node : Node} (h : Spells text node) :
    Reads outside text node := by
  induction h with
  | null => exact reads_keyword rfl (by decide) rfl rfl
  | @boolean value =>
    cases value with
    | true => exact reads_keyword rfl (by decide) rfl rfl
    | false => exact reads_keyword rfl (by decide) rfl rfl
  | int hn hnumber => exact reads_number hn hnumber rfl
  | float hn hnumber => exact reads_number hn hnumber rfl
  | @string text contents _ hquotes hplain =>
    refine reads_scalar rfl (by decide) rfl fun rest _ =>
      ⟨.string (String.ofList contents.toList), ?_⟩
    rw [List.append_assoc]
    exact readScalar_string hquotes hplain
  | @emptyList gap _ hgap =>
    intro stack rest _ _
    rw [List.cons_append, List.append_assoc]
    refine (leads_opening (.inl rfl) fun hroom =>
      leads_of_step trivial (step_emptyArray hroom hgap)).congr ?_
    simp [Node.depth, Literal.Value.depth, depthOfItems, Nat.add_assoc]
  | @list first others _ hspaced hspells ih =>
    intro stack rest _ _
    have htext : '[' :: (first.1.chars ++
        (others.flatMap (fun item => ',' :: item.1.chars) ++ [']'])) ++ rest =
          '[' :: (first.1.chars ++ itemsText others rest) := by
      simp [itemsText]
    rw [htext, Node.depth, Literal.Value.depth]
    have hitems : ∀ item ∈ first :: others, item.1.Holds outside item.2 :=
      fun item hmem => ⟨hspaced item hmem, hspells item hmem, ih item hmem⟩
    refine (leads_array stack rest hitems).congr ?_
    rw [container_lt_iff fun _ => Literal.depthOfItems_le_iff]
    simp only [List.forall_mem_map]
  | @emptyObject gap _ hgap =>
    intro stack rest _ _
    rw [List.cons_append, List.append_assoc]
    refine (leads_opening (.inr rfl) fun hroom =>
      leads_of_step trivial (step_emptyObject hroom hgap)).congr ?_
    simp [Node.depth, Literal.Value.depth, depthOfFields, Nat.add_assoc]
  | @object first others _ hspaced hspells ih =>
    intro stack rest _ _
    have htext : '\x7b' :: (first.chars ++
        (others.flatMap (fun member => ',' :: member.chars) ++ ['\x7d'])) ++ rest =
          '\x7b' :: (first.chars ++ membersText others rest) := by
      simp [membersText]
    rw [htext, Node.depth, Literal.Value.depth]
    have hmembers : ∀ member ∈ first :: others, member.Holds outside := fun member hmem =>
      ⟨hspaced member hmem, (hspaced member hmem).value, hspells member hmem, ih member hmem⟩
    refine (leads_object stack rest hmembers).congr ?_
    rw [container_lt_iff fun _ => Literal.depthOfFields_le_iff]
    simp only [List.forall_mem_map]

end Trees

/-! ## Whole texts -/

section Texts

variable {text before after : List Char} {node : Node}

/-- A text of a tree is read as a value, with blanks around it, if the tree is not too deep. -/
theorem leads_readValue (h : Spells text node) (hbefore : Blank before) (hafter : Blank after) :
    Leads (node.depth < depthLimit) (readValue 0 (before ++ (text ++ after)))
      fun value => .ok (value, after) := by
  obtain ⟨c, cs, htext, hblank, -⟩ := h.exists_cons
  have hends : EndsValue after := fun c hc => .inl (hafter c (List.mem_of_mem_head? hc))
  have hreads := h.reads [] after hends (by decide : 0 + 0 < depthLimit)
  have hrun : readValue 0 (before ++ (text ++ after)) = run 0 [] .value (text ++ after) := by
    rw [readValue, htext, List.cons_append, run_value_append hbefore hblank]
  rw [hrun]
  simpa only [run_done, List.length_nil, Nat.zero_add] using hreads

/-- **A tree is refused for its depth exactly if it reaches the limit**, in any of its texts. -/
theorem parse_tooDeep_iff (h : Spells text node) (hbefore : Blank before) (hafter : Blank after) :
    (∃ fault, parse (String.ofList (before ++ (text ++ after))) = .error fault ∧
      fault.cause = .tooDeep) ↔ depthLimit ≤ node.depth := by
  obtain ⟨hfits, hfull⟩ := leads_readValue h hbefore hafter
  by_cases hdepth : node.depth < depthLimit
  · obtain ⟨value, hvalue⟩ := hfits hdepth
    have hskip : skipBlanks after = [] := List.dropWhile_eq_nil_iff.mpr hafter
    have hparse : parse (String.ofList (before ++ (text ++ after))) = .ok value.merged := by
      simp only [parse, readWhole, String.toList_ofList, hvalue, hskip]
      rfl
    rw [hparse]
    simp [Nat.not_le.mpr hdepth]
  · obtain ⟨fault, hfault, hcause⟩ := hfull hdepth
    have hparse : parse (String.ofList (before ++ (text ++ after))) = .error fault := by
      simp only [parse, readWhole, String.toList_ofList, hfault]
      rfl
    rw [hparse]
    simp [hcause, Nat.not_lt.mp hdepth]

/-- **The limits of literals and of JSON differ by one.** A tree is refused as a literal if it nests
deeper than `maxDepth`, and in JSON already if it nests as deep as `depthLimit`. Both are 128, so
the trees of that depth are refused in JSON only. -/
theorem tooDeep_iff {spell : String → List Char} {pieces : List Literal.Piece} {last : List Char}
    (hspell : ∀ contents, Literal.Quotes (spell contents) contents.toList)
    (hnode : node.IsWritable) (hpieces : pieces.map Literal.Piece.lexeme = node.lexemes spell)
    (hlayout : Literal.IsLayout pieces last) (htext : Spells text node) (hbefore : Blank before)
    (hafter : Blank after) :
    ((∃ span, Literal.parse (String.ofList (Literal.layOut pieces last)) =
      .error (.error (.tooDeep span))) ↔ Literal.maxDepth < node.depth) ∧
    ((∃ fault, parse (String.ofList (before ++ (text ++ after))) = .error fault ∧
      fault.cause = .tooDeep) ↔ depthLimit ≤ node.depth) :=
  ⟨Literal.parse_layOut_tooDeep_iff hspell hnode hpieces hlayout,
    parse_tooDeep_iff htext hbefore hafter⟩

end Texts

/-! ## Lists in lists -/

/-- An empty list inside `n` lists. -/
def nestedLists : Nat → Node
  | 0 => ⟨.list [], default⟩
  | n + 1 => ⟨.list [nestedLists n], default⟩

/-- The brackets of `nestedLists`. -/
def nestedBrackets : Nat → List Char
  | 0 => ['[', ']']
  | n + 1 => '[' :: (nestedBrackets n ++ [']'])

/-- The tokens of `nestedLists`, with nothing between them. -/
def nestedPieces : Nat → List Literal.Piece
  | 0 => [⟨[], ⟨.bracketOpen, ['[']⟩⟩, ⟨[], ⟨.bracketClose, [']']⟩⟩]
  | n + 1 => ⟨[], ⟨.bracketOpen, ['[']⟩⟩ :: (nestedPieces n ++ [⟨[], ⟨.bracketClose, [']']⟩⟩])

section Nested

variable {n : Nat}

theorem depth_nestedLists : (nestedLists n).depth = n + 1 := by
  induction n with
  | zero => rfl
  | succ n ih => simp [nestedLists, Node.depth, Literal.Value.depth, depthOfItems, ih]

theorem isWritable_nestedLists : (nestedLists n).IsWritable := by
  induction n with
  | zero => exact .list nofun
  | succ n ih => exact .list (List.forall_mem_singleton.mpr ih)

theorem lexeme_nestedPieces {spell : String → List Char} :
    (nestedPieces n).map Literal.Piece.lexeme = (nestedLists n).lexemes spell := by
  induction n with
  | zero => rfl
  | succ n ih =>
    simp [nestedPieces, nestedLists, Node.lexemes, Literal.Value.lexemes, Literal.lexemesOfItems,
      ih]

/-- Marks are kept apart without anything between them. -/
theorem isLayout_nestedPieces : Literal.IsLayout (nestedPieces n) [] := by
  have hmarks : ∀ piece ∈ nestedPieces n, piece.gap = [] ∧ piece.lexeme.kind.isMark := by
    induction n with
    | zero => simp [nestedPieces, Literal.TokenKind.isMark]
    | succ n ih => simpa [nestedPieces, or_imp, forall_and, Literal.TokenKind.isMark] using ih
  refine ⟨fun piece hmem => (hmarks piece hmem).1 ▸ .nil, .nil, ?_⟩
  exact (List.pairwise_of_forall_mem_list fun piece hmem _ _ => .inl (hmarks piece hmem).2).isChain

theorem spells_nestedLists : Spells (nestedBrackets n) (nestedLists n) := by
  have hblank : Blank [] := nofun
  induction n with
  | zero => exact .emptyList hblank
  | succ n ih =>
    let item : Slot × Node := (⟨[], nestedBrackets n, []⟩, nestedLists n)
    have hspaced : ∀ part ∈ [item], part.1.IsSpaced :=
      List.forall_mem_singleton.mpr ⟨hblank, hblank⟩
    have hitems : ∀ part ∈ [item], Spells part.1.text part.2 := List.forall_mem_singleton.mpr ih
    have hlist : Spells _ ⟨.list ([item].map Prod.snd), default⟩ := .list hspaced hitems
    simpa [nestedBrackets, nestedLists, Slot.chars, item] using hlist

end Nested

/-- Lists in lists up to a depth of 128 are a literal, and too deep for JSON. -/
theorem tooDeep_iff_nestedLists :
    (¬∃ span, Literal.parse (String.ofList (Literal.layOut (nestedPieces 127) [])) =
      .error (.error (.tooDeep span))) ∧
    ∃ fault, parse (String.ofList ([] ++ (nestedBrackets 127 ++ []))) = .error fault ∧
      fault.cause = .tooDeep := by
  have hblank : Blank [] := nofun
  obtain ⟨hliteral, hjson⟩ := tooDeep_iff (fun contents => Literal.quotes_escaped contents.toList)
    isWritable_nestedLists lexeme_nestedPieces isLayout_nestedPieces (spells_nestedLists (n := 127))
    hblank hblank
  rw [depth_nestedLists] at hliteral hjson
  exact ⟨fun h => absurd (hliteral.mp h) (by decide), hjson.mpr (by decide)⟩

/-- The limits are not the same: a tree may be too deep for JSON and not for a literal. -/
theorem not_tooDeep_iff_tooDeep :
    ¬∀ (node : Node) (spell : String → List Char) (pieces : List Literal.Piece)
      (last text before after : List Char),
      (∀ contents, Literal.Quotes (spell contents) contents.toList) → node.IsWritable →
        pieces.map Literal.Piece.lexeme = node.lexemes spell → Literal.IsLayout pieces last →
          Spells text node → Blank before → Blank after →
            ((∃ span, Literal.parse (String.ofList (Literal.layOut pieces last)) =
              .error (.error (.tooDeep span))) ↔
              ∃ fault, parse (String.ofList (before ++ (text ++ after))) = .error fault ∧
                fault.cause = .tooDeep) := by
  intro h
  have hquotes : ∀ contents : String,
      Literal.Quotes (contents.toList.flatMap escaped) contents.toList :=
    fun contents => Literal.quotes_escaped contents.toList
  have hblank : Blank [] := nofun
  have hiff := h (nestedLists 127) _ (nestedPieces 127) [] (nestedBrackets 127) [] [] hquotes
    isWritable_nestedLists lexeme_nestedPieces isLayout_nestedPieces spells_nestedLists hblank
    hblank
  rw [Literal.parse_layOut_tooDeep_iff hquotes isWritable_nestedLists lexeme_nestedPieces
    isLayout_nestedPieces, parse_tooDeep_iff spells_nestedLists hblank hblank,
    depth_nestedLists] at hiff
  exact absurd (hiff.mpr (by decide)) (by decide)

end TaggedUnion.Json
