import Mathlib.Algebra.Order.Ring.Int
import TaggedUnion.Literal.Node
import TaggedUnion.Json.Printer
import TaggedUnion.Registry

/-!
# Values written as literals

A runtime value can be written as a literal: nulls, booleans and integers as themselves, lists and
objects part by part. Only strings depend on the type: where an enum is expected they are bare
names.

* `Json.rendered`: the literal that a value is written as where a type is expected.
* `Json.IsIntegral`: the values that can be written without loss.
* `rendered_congr`: what the literal depends on.
-/

namespace TaggedUnion

/-! ## Rendering -/

/-- A name that is an enum value when it stands bare in a literal. -/
def Text.isBareName (text : String) : Bool :=
  isName text && text ≠ "null" && text ≠ "true" && text ≠ "false"

namespace InputType

/-- The named type behind lists and marks for null, one reference followed. -/
def core? (registry : Registry) : InputType → Option NamedType
  | named type => some type
  | list item => item.core? registry
  | nonNull inner => inner.core? registry
  | reference name => registry.get? name

/-- The type of the items of an array. -/
def item? : InputType → Option InputType
  | list item => some item
  | nonNull inner => inner.item?
  | _ => none

/-- The declared type of a member of an object. -/
def member? (registry : Registry) (name : String) (type : InputType) : Option InputType :=
  match type.core? registry with
  | some (.object object) => (object.field? name).map Field.type
  | _ => none

/-- Whether an enum is expected. -/
def expectsEnum (registry : Registry) (type : InputType) : Bool :=
  match type.core? registry with
  | some (.enum _) => true
  | _ => false

end InputType

namespace Json

mutual

/-- The literal that a value is written as where a type is expected, or where none is known. -/
def rendered (registry : Registry) (type? : Option InputType) : Json → Literal.Node
  | null => ⟨.null, default⟩
  | bool value => ⟨.boolean value, default⟩
  | number (.integer i) => ⟨.int (intText i), default⟩
  | number (.double x) => ⟨.float x.text, default⟩
  | string text =>
    if type?.any (·.expectsEnum registry) && Text.isBareName text then ⟨.enum text, default⟩
    else ⟨.string text, default⟩
  | array items => ⟨.list (renderedItems registry (type?.bind InputType.item?) items), default⟩
  | object members => ⟨.object (renderedMembers registry type? members), default⟩

/-- `rendered` for each item. -/
def renderedItems (registry : Registry) (type? : Option InputType) : List Json → List Literal.Node
  | [] => []
  | item :: rest => item.rendered registry type? :: renderedItems registry type? rest

/-- `rendered` for each member, where a type is expected of the object. -/
def renderedMembers (registry : Registry) (type? : Option InputType) :
    List (String × Json) → List Literal.Field
  | [] => []
  | (name, value) :: rest =>
    ⟨⟨name, default⟩, value.rendered registry (type?.bind (·.member? registry name)), default⟩ ::
      renderedMembers registry type? rest

end

/-- Values whose numbers are all held as integers. -/
inductive IsIntegral : Json → Prop where
  | null : IsIntegral null
  | bool {value : Bool} : IsIntegral (bool value)
  | integer {i : Int} (hlow : -2 ^ 63 ≤ i) (hhigh : i < 2 ^ 64) : IsIntegral (number (.integer i))
  | string {text : String} : IsIntegral (string text)
  | array {items : List Json} (hitems : ∀ item ∈ items, item.IsIntegral) : IsIntegral (array items)
  | object {members : List (String × Json)} (hmembers : ∀ member ∈ members, member.2.IsIntegral) :
    IsIntegral (object members)

end Json

/-! ## What a value is written as -/

section

variable {registry : Registry} {value : Json}

theorem renderedItems_eq_map {type? : Option InputType} {items : List Json} :
    Json.renderedItems registry type? items = items.map (·.rendered registry type?) := by
  induction items with
  | nil => rfl
  | cons item rest ih => rw [Json.renderedItems, ih, List.map_cons]

/-- What a member is written as, where a type is expected of the object. -/
def renderedMember (registry : Registry) (type : InputType) (member : String × Json) :
    Literal.Field :=
  ⟨⟨member.1, default⟩, member.2.rendered registry (type.member? registry member.1), default⟩

theorem renderedMembers_eq_map {type : InputType} {members : List (String × Json)} :
    Json.renderedMembers registry (some type) members =
      members.map (renderedMember registry type) := by
  induction members with
  | nil => rfl
  | cons member rest ih => rw [Json.renderedMembers, ih, List.map_cons]; rfl

/-- What a value is written as depends on the named type behind the lists, and for an array on the
type of its items. -/
theorem rendered_congr {type type' : InputType}
    (hcore : type.core? registry = type'.core? registry)
    (hitem : type.item? = type'.item? ∨ ∀ items, value ≠ .array items) :
    value.rendered registry (some type) = value.rendered registry (some type') := by
  cases value with
  | number n => cases n <;> rfl
  | string text =>
    have henum : type.expectsEnum registry = type'.expectsEnum registry := by
      simp only [InputType.expectsEnum, hcore]
    simp only [Json.rendered, Option.any_some, henum]
  | array items =>
    have hitem := hitem.resolve_right fun h => h items rfl
    simp only [Json.rendered, Option.bind_some, hitem]
  | object members =>
    have hmember : renderedMember registry type = renderedMember registry type' := by
      funext member
      simp only [renderedMember, InputType.member?, hcore]
    simp only [Json.rendered, renderedMembers_eq_map, hmember]
  | _ => rfl

/-- Nulls, arrays and objects are written as what they are, and nothing else is. -/
theorem rendered_value_iff {type? : Option InputType} :
    ((value.rendered registry type?).value = .null ↔ value = .null) ∧
      ((∃ nodes, (value.rendered registry type?).value = .list nodes) ↔
        ∃ items, value = .array items) ∧
      ((∃ given, (value.rendered registry type?).value = .object given) ↔
        ∃ members, value = .object members) := by
  cases value with
  | number n => cases n <;> simp [Json.rendered]
  | string text =>
    simp only [Json.rendered]
    split <;> simp
  | _ => simp [Json.rendered]

theorem rendered_ne_null (hnull : value ≠ .null) {type? : Option InputType} :
    (value.rendered registry type?).value ≠ .null :=
  fun h => hnull (rendered_value_iff.1.mp h)

theorem find?_renderedMembers {type : InputType} {members : List (String × Json)} {name : String} :
    (members.map (renderedMember registry type)).find? (fun other => other.name.text = name) =
      (members.lookup name).map fun value => renderedMember registry type (name, value) := by
  induction members with
  | nil => rfl
  | cons member rest ih =>
    obtain ⟨other, value⟩ := member
    rw [List.map_cons, List.find?_cons, List.lookup_cons]
    by_cases hname : other = name
    · subst hname
      simp [renderedMember]
    · simp only [renderedMember, hname, decide_false]
      rw [beq_eq_false_iff_ne.mpr (Ne.symm hname)]
      exact ih

end

end TaggedUnion
