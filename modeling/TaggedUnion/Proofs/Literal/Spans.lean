import TaggedUnion.Proofs.Coercion.NodeInduction
import TaggedUnion.Proofs.InputType.Reached

/-!
# Positions do not matter

A literal carries its positions, and the text that it was read from is at hand when it is converted.
Both are for messages only: what a literal becomes depends on neither, unless a function given to a
union looks at them.

* `Literal.Node.spanless`: the literal with its positions forgotten.
* `convert_spanless`: the conversion of a literal without its positions and against any text.
-/

namespace TaggedUnion

namespace Literal

mutual

/-- The literal with all its positions forgotten. -/
def Node.spanless : Node → Node
  | ⟨value, _⟩ => ⟨value.spanless, default⟩

/-- `Node.spanless` for the parts of a literal. -/
def Value.spanless : Value → Value
  | .list items => .list (spanlessItems items)
  | .object fields => .object (spanlessFields fields)
  | value => value

/-- `Node.spanless` for each item. -/
def spanlessItems : List Node → List Node
  | [] => []
  | item :: rest => item.spanless :: spanlessItems rest

/-- `Node.spanless` for each field. -/
def spanlessFields : List Field → List Field
  | [] => []
  | ⟨name, value, _⟩ :: rest =>
    ⟨⟨name.text, default⟩, value.spanless, default⟩ :: spanlessFields rest

end

/-- The field with all its positions forgotten. -/
def Field.spanless (field : Field) : Field :=
  ⟨⟨field.name.text, default⟩, field.value.spanless, default⟩

theorem spanlessItems_eq_map {items : List Node} :
    spanlessItems items = items.map Node.spanless := by
  induction items with
  | nil => rfl
  | cons item rest ih => rw [spanlessItems, ih, List.map_cons]

theorem spanlessFields_eq_map {fields : List Field} :
    spanlessFields fields = fields.map Field.spanless := by
  induction fields with
  | nil => rfl
  | cons field rest ih =>
    cases field
    rw [spanlessFields, ih, List.map_cons, Field.spanless]

namespace Node

@[simp] theorem value_spanless {node : Node} : node.spanless.value = node.value.spanless := by
  cases node
  rw [spanless]

@[simp] theorem spanless_eq_null {value : Value} : value.spanless = .null ↔ value = .null := by
  cases value <;> simp [Value.spanless]

@[simp] theorem kind_spanless {node : Node} : node.spanless.kind = node.kind := by
  unfold kind
  rw [value_spanless]
  cases node.value <;> rfl

@[simp] theorem key?_spanless {node : Node} : node.spanless.key? = node.key? := by
  unfold key?
  rw [value_spanless]
  cases node.value <;> rfl

@[simp] theorem scalarText?_spanless {node : Node} :
    node.spanless.scalarText? = node.scalarText? := by
  unfold scalarText?
  rw [value_spanless]
  cases node.value <;> rfl

theorem fields?_spanless {node : Node} :
    node.spanless.fields? = node.fields?.map (List.map Field.spanless) := by
  unfold fields?
  rw [value_spanless]
  cases node.value <;> simp [Value.spanless, spanlessFields_eq_map]

theorem find?_spanless {fields : List Field} {name : String} :
    (fields.map Field.spanless).find? (fun field => field.name.text = name) =
      (fields.find? fun field => field.name.text = name).map Field.spanless := by
  rw [List.find?_map]
  rfl

theorem field?_spanless {node : Node} {name : String} :
    node.spanless.field? name = (node.field? name).map Field.spanless := by
  unfold field?
  rw [fields?_spanless]
  cases node.fields? with
  | none => rfl
  | some fields => exact find?_spanless

end Node

end Literal

/-! ## Conversion -/

theorem Builtin.parseLiteral_spanless {scalar : Builtin} {source source' : Source}
    {node : Literal.Node} :
    (scalar.parseLiteral source' node.spanless).toOption =
      (scalar.parseLiteral source node).toOption := by
  cases scalar <;> simp only [parseLiteral, Literal.Node.value_spanless] <;>
    cases node.value <;> rfl

/-- **Positions do not matter.** A literal becomes the same under a type without unions wherever it
stands and whatever text it is said to come from. -/
theorem convert_spanless (source : Source) {source' : Source} {registry : Registry}
    {type : InputType} {node : Literal.Node}
    (h : type.AllReached registry fun reached => ∀ union, reached ≠ .union union) :
    type.convert registry source' node.spanless = type.convert registry source node := by
  induction type, node using nodeInduction registry source with
  | null type node htype hnull => rw [convert_null htype (by simpa), convert_null htype hnull]
  | nonNull inner node ih => rw [convert_nonNull, convert_nonNull, ih h.inner]
  | reference name node hnull ih =>
    rw [convert_reference (by simpa), convert_reference hnull]
    cases hget : registry.get? name with
    | none => rfl
    | some type => exact ih type hget (h.target hget)
  | list item node items hvalue ih =>
    have hitems : convertItems registry source' item (items.map Literal.Node.spanless) =
        convertItems registry source item items := by
      clear hvalue
      induction items with
      | nil => rw [List.map_nil, convertItems_nil, convertItems_nil]
      | cons part rest ihrest =>
        simp only [List.mem_cons, forall_eq_or_imp] at ih
        rw [List.map_cons, convertItems_cons, convertItems_cons, ih.1 h.item, ihrest ih.2]
    have hvalue' : node.spanless.value = .list (items.map Literal.Node.spanless) := by
      rw [Literal.Node.value_spanless, hvalue, Literal.Value.spanless,
        Literal.spanlessItems_eq_map]
    rw [convert_list hvalue', convert_list hvalue, hitems]
  | lone item node hnull hlist ih =>
    have hlist' : ∀ items, node.spanless.value ≠ .list items := by
      intro items
      rw [Literal.Node.value_spanless]
      cases hvalue : node.value with
      | list items => exact absurd hvalue (hlist items)
      | _ => simp [Literal.Value.spanless]
    rw [convert_lone (by simpa) hlist', convert_lone hnull hlist, ih h.item]
  | builtin scalar node hnull =>
    rw [convert_builtin (by simpa), convert_builtin hnull, Builtin.parseLiteral_spanless]
  | enum enum node hnull =>
    rw [convert_enum (by simpa), convert_enum hnull]
    unfold EnumType.convert
    rw [Literal.Node.value_spanless]
    cases node.value <;> rfl
  | object object node given hvalue ih =>
    have hfields : ∀ fields, (∀ field ∈ fields, field ∈ object.fields) →
        convertFields registry source' (given.map Literal.Field.spanless) fields =
          convertFields registry source given fields := by
      intro fields hsub
      induction fields with
      | nil => rw [convertFields_nil, convertFields_nil]
      | cons field rest ihrest =>
        simp only [List.mem_cons, forall_eq_or_imp] at hsub
        have hfield : convertField registry source' (given.map Literal.Field.spanless) field =
            convertField registry source given field := by
          unfold convertField
          rw [Literal.Node.find?_spanless]
          cases hfind : given.find? fun other => other.name.text = field.name with
          | none => rfl
          | some found =>
            simp only [Option.map_some, Literal.Field.spanless,
              ih field hsub.1 found hfind (h.field hsub.1)]
        rw [convertFields_cons, convertFields_cons, hfield, ihrest hsub.2]
    have hvalue' : node.spanless.value = .object (given.map Literal.Field.spanless) := by
      rw [Literal.Node.value_spanless, hvalue, Literal.Value.spanless,
        Literal.spanlessFields_eq_map]
    rw [convert_object hvalue', convert_object hvalue, hfields _ fun _ hmem => hmem, List.all_map]
    rfl
  | other object node hnull hobject =>
    have hobject' : ∀ given, node.spanless.value ≠ .object given := by
      intro given
      rw [Literal.Node.value_spanless]
      cases hvalue : node.value with
      | object given => exact absurd hvalue (hobject given)
      | _ => simp [Literal.Value.spanless]
    rw [convert_not_object (by simpa) hobject', convert_not_object hnull hobject]
  | union union node hnull ih => exact absurd rfl (h.here union)

end TaggedUnion
