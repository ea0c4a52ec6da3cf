import TaggedUnion.Proofs.Literal.Grammar
import TaggedUnion.Proofs.Literal.Spans

/-!
# The depth of a literal

How many lists and objects are open in a literal at the same time is seen in its tree, and the
tokens of the literal need room for that many.

* `Node.depth`: how many lists and objects are open at the deepest point.
* `depth_eq_of_spanless`: it does not depend on positions.
* `Derives.fits`: a literal takes as much room as its tree is deep.
-/

namespace TaggedUnion.Literal

/-! ## Trees -/

mutual

/-- How many lists and objects are open at the deepest point of the literal. -/
def Node.depth : Node → Nat
  | ⟨value, _⟩ => value.depth

/-- `Node.depth` for the parts of a literal. -/
def Value.depth : Value → Nat
  | .list items => depthOfItems items + 1
  | .object fields => depthOfFields fields + 1
  | _ => 0

/-- `Node.depth` for the deepest item. -/
def depthOfItems : List Node → Nat
  | [] => 0
  | item :: rest => max item.depth (depthOfItems rest)

/-- `Node.depth` for the deepest field. -/
def depthOfFields : List Field → Nat
  | [] => 0
  | ⟨_, value, _⟩ :: rest => max value.depth (depthOfFields rest)

end

section Depth

variable {items : List Node} {fields : List Field} {limit : Nat}

theorem depthOfFields_cons {field : Field} {rest : List Field} :
    depthOfFields (field :: rest) = max field.value.depth (depthOfFields rest) := by
  cases field
  rw [depthOfFields]

theorem depthOfItems_le_iff : depthOfItems items ≤ limit ↔ ∀ item ∈ items, item.depth ≤ limit := by
  induction items with
  | nil => simp [depthOfItems]
  | cons item rest ih => rw [depthOfItems, Nat.max_le, ih, List.forall_mem_cons]

theorem depthOfFields_le_iff :
    depthOfFields fields ≤ limit ↔ ∀ field ∈ fields, field.value.depth ≤ limit := by
  induction fields with
  | nil => simp [depthOfFields]
  | cons field rest ih => rw [depthOfFields_cons, Nat.max_le, ih, List.forall_mem_cons]

mutual

/-- Positions do not change the depth. -/
theorem Node.depth_spanless : ∀ node : Node, node.spanless.depth = node.depth
  | ⟨value, _⟩ => by rw [Node.spanless, Node.depth, Node.depth, value.depth_spanless]

/-- `Node.depth_spanless` for the parts of a literal. -/
theorem Value.depth_spanless : ∀ value : Value, value.spanless.depth = value.depth
  | .list items => by rw [Value.spanless, Value.depth, Value.depth, depthOfItems_spanless items]
  | .object fields => by
    rw [Value.spanless, Value.depth, Value.depth, depthOfFields_spanless fields]
  | .null | .int _ | .float _ | .string _ | .boolean _ | .enum _ => rfl

/-- `Node.depth_spanless` for each item. -/
theorem depthOfItems_spanless : ∀ items : List Node,
    depthOfItems (spanlessItems items) = depthOfItems items
  | [] => rfl
  | item :: rest => by
    rw [spanlessItems, depthOfItems, depthOfItems, item.depth_spanless, depthOfItems_spanless rest]

/-- `Node.depth_spanless` for each field. -/
theorem depthOfFields_spanless : ∀ fields : List Field,
    depthOfFields (spanlessFields fields) = depthOfFields fields
  | [] => rfl
  | ⟨_, value, _⟩ :: rest => by
    rw [spanlessFields, depthOfFields, depthOfFields, value.depth_spanless,
      depthOfFields_spanless rest]

end

/-- Trees that differ in positions only are of one depth. -/
theorem depth_eq_of_spanless {node node' : Node} (h : node.spanless = node'.spanless) :
    node.depth = node'.depth := by
  rw [← node.depth_spanless, h, node'.depth_spanless]

end Depth

/-! ## Room -/

section Room

variable {tokens : List Token} {node : Node}

/-- Parts that close what they open take no more room one after the other than each alone. -/
theorem fits_flatMap {α : Type} {word : α → List Token} {parts : List α} {room : Nat}
    (hroom : room ≤ maxDepth) (hparts : ∀ part ∈ parts, Fits room (word part))
    (hbalanced : ∀ part ∈ parts, openings (word part) = closings (word part)) :
    Fits room (parts.flatMap word) := by
  induction parts with
  | nil => exact fits_of_openings_eq_zero hroom rfl
  | cons part rest ih =>
    obtain ⟨hpart, hrest⟩ := List.forall_mem_cons.mp hparts
    obtain ⟨hfirst, hothers⟩ := List.forall_mem_cons.mp hbalanced
    exact hpart.append hfirst (ih hrest hothers)

/-- **A literal takes as much room as its tree is deep.** -/
theorem Derives.fits (h : Derives tokens node) {room : Nat} (hroom : room + node.depth ≤ maxDepth) :
    Fits room tokens := by
  induction h generalizing room with
  | single hmeaning => exact fits_of_openings_eq_zero (by omega) hmeaning.openings
  | @list opening closing items hopening hclosing hitems ih =>
    rw [Node.depth, Value.depth] at hroom
    have hdepth : ∀ item ∈ items, room + 1 + item.2.depth ≤ maxDepth := by
      intro item hmem
      have := depthOfItems_le_iff.mp (Nat.le_refl _) item.2 (List.mem_map_of_mem hmem)
      omega
    have hbalanced : ∀ item ∈ items, openings item.1 = closings item.1 :=
      fun item hmem => (hitems item hmem).balanced
    exact (fits_flatMap (by omega) (fun item hmem => ih item hmem (hdepth item hmem))
      hbalanced).bracketed (balanced_flatMap hbalanced) (by rw [hopening]; rfl)
        (by rw [hclosing]; rfl)
  | @object opening closing parts hopening hclosing hnames hcolons hvalues ih =>
    rw [Node.depth, Value.depth] at hroom
    have hbalanced : ∀ part ∈ parts, openings part.word = closings part.word := fun part hmem =>
      FieldPart.balanced (hnames part hmem) (hcolons part hmem) (hvalues part hmem).balanced
    have hparts : ∀ part ∈ parts, Fits (room + 1) part.word := by
      intro part hmem
      have := depthOfFields_le_iff.mp (Nat.le_refl _) part.field (List.mem_map_of_mem hmem)
      have hvalue : room + 1 + part.value.depth ≤ maxDepth := by
        simp only [FieldPart.field] at this
        omega
      have hhead : Fits (room + 1) [part.name, part.colon] := by
        refine fits_of_openings_eq_zero (by omega) ?_
        simp [openings_cons, hnames part hmem, hcolons part hmem, TokenKind.opens]
      exact hhead.append (FieldPart.balanced_head (hnames part hmem) (hcolons part hmem))
        (ih part hmem hvalue)
    exact (fits_flatMap (by omega) hparts hbalanced).bracketed (balanced_flatMap hbalanced)
      (by rw [hopening]; rfl) (by rw [hclosing]; rfl)

end Room

end TaggedUnion.Literal
