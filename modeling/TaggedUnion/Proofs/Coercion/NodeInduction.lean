import TaggedUnion.Coercion.Literal
import TaggedUnion.Proofs.Coercion.Composition

/-!
# Induction over literals under types

The conversion of literals is a recursion like the check of runtime values, over a literal and a
type at once. This file gives its equations and the induction that follows them.

* `nodeInduction`: what holds of each type and literal if it holds of the parts that the conversion
  goes to.
* `convert_null` ... `convert_union`: the equations of the conversion.
* `convert_ne_null`: only a null literal becomes null, so types without null refuse only that.
-/

namespace TaggedUnion

@[simp] theorem Literal.Node.kind_eq_null {node : Literal.Node} :
    node.kind = .null ↔ node.value = .null := by
  unfold kind
  cases node.value <;> simp

theorem Literal.Node.sizeOf_lt_of_value_list {node item : Literal.Node} {items : List Literal.Node}
    (h : node.value = .list items) (hmem : item ∈ items) : sizeOf item < sizeOf node := by
  have hvalue := Literal.sizeOf_value_lt node
  have hitem := List.sizeOf_lt_of_mem hmem
  rw [h, Literal.Value.list.sizeOf_spec] at hvalue
  omega

theorem Literal.Node.sizeOf_lt_of_value_object {node : Literal.Node} {given : List Literal.Field}
    {found : Literal.Field} {p : Literal.Field → Bool} (h : node.value = .object given)
    (hfind : given.find? p = some found) : sizeOf found.value < sizeOf node := by
  have hvalue := Literal.sizeOf_value_lt node
  have hfield := Literal.sizeOf_value_lt_of_find hfind
  rw [h, Literal.Value.object.sizeOf_spec] at hvalue
  omega

/-! ## Induction -/

/-- **Induction over a literal and a type.** The cases are the steps of the conversion: a type
without null is looked into even for a null literal, a list goes to its items and an object to the
first field of each name, and a type that does not go to a part of the literal is replaced by what
it stands for. -/
theorem nodeInduction (registry : Registry) (source : Source) {P : InputType → Literal.Node → Prop}
    (null : ∀ (type : InputType) (node : Literal.Node), type.isNonNull = false →
      node.value = .null → P type node)
    (nonNull : ∀ inner node, P inner node → P (.nonNull inner) node)
    (reference : ∀ (name : String) (node : Literal.Node), node.value ≠ .null →
      (∀ type, registry.get? name = some type → P (.named type) node) → P (.reference name) node)
    (list : ∀ (item : InputType) (node : Literal.Node) (items : List Literal.Node),
      node.value = .list items → (∀ part ∈ items, P item part) → P (.list item) node)
    (lone : ∀ (item : InputType) (node : Literal.Node), node.value ≠ .null →
      (∀ items, node.value ≠ .list items) → P item node → P (.list item) node)
    (builtin : ∀ (scalar : Builtin) (node : Literal.Node), node.value ≠ .null →
      P (.named (.builtin scalar)) node)
    (enum : ∀ (enum : EnumType) (node : Literal.Node), node.value ≠ .null →
      P (.named (.enum enum)) node)
    (object : ∀ (object : ObjectType) (node : Literal.Node) (given : List Literal.Field),
      node.value = .object given → (∀ field ∈ object.fields, ∀ found,
        given.find? (fun other => other.name.text = field.name) = some found →
          P field.type found.value) → P (.named (.object object)) node)
    (other : ∀ (object : ObjectType) (node : Literal.Node), node.value ≠ .null →
      (∀ given, node.value ≠ .object given) → P (.named (.object object)) node)
    (union : ∀ (union : UnionType) (node : Literal.Node), node.value ≠ .null →
      (∀ type, union.typeOfNode source node = .ok type → P (.named type) node) →
      P (.named (.union union)) node)
    (type : InputType) (node : Literal.Node) : P type node := by
  have ih : ∀ type' node', Prod.Lex (· < ·) InputType.Before
      (sizeOf node', type') (sizeOf node, type) → P type' node' :=
    fun type' node' hlt => nodeInduction registry source null nonNull reference list lone builtin
      enum object other union type' node'
  -- Without going to a part of the literal, the type has to be replaced.
  have same : ∀ type', type'.Before type → P type' node :=
    fun type' h => ih type' node (Prod.Lex.right _ h)
  have smaller : ∀ type' node', sizeOf node' < sizeOf node → P type' node' :=
    fun type' node' h => ih type' node' (Prod.Lex.left _ _ h)
  by_cases hnonNull : type.isNonNull
  · cases type with
    | nonNull inner => exact nonNull inner node (same inner .inner)
    | _ => simp [InputType.isNonNull] at hnonNull
  by_cases hnull : node.value = .null
  · exact null type node (by simpa using hnonNull) hnull
  cases type with
  | nonNull inner => simp [InputType.isNonNull] at hnonNull
  | reference name => exact reference name node hnull fun type' _ => same (.named type') .target
  | list item =>
    by_cases hlist : ∃ items, node.value = .list items
    · obtain ⟨items, hvalue⟩ := hlist
      exact list item node items hvalue fun part hmem =>
        smaller item part (Literal.Node.sizeOf_lt_of_value_list hvalue hmem)
    · exact lone item node hnull (by simpa using hlist) (same item .item)
  | named type =>
    cases type with
    | builtin scalar => exact builtin scalar node hnull
    | enum e => exact enum e node hnull
    | object o =>
      by_cases hobject : ∃ given, node.value = .object given
      · obtain ⟨given, hvalue⟩ := hobject
        exact object o node given hvalue fun field _ found hfind =>
          smaller field.type found.value (Literal.Node.sizeOf_lt_of_value_object hvalue hfind)
      · exact other o node hnull (by simpa using hobject)
    | union u =>
      exact union u node hnull fun type' htype =>
        same (.named type') (UnionType.before_of_typeOfNode htype)
termination_by (sizeOf node, type)
decreasing_by exact hlt

/-! ## Equations -/

section Equations

variable {registry : Registry} {source : Source} {node : Literal.Node}

theorem convert_null {type : InputType} (h : type.isNonNull = false) (hnull : node.value = .null) :
    type.convert registry source node = some .null := by
  cases type with
  | named type =>
    rw [InputType.convert.eq_def]
    simp only []
    rw [NamedType.convert.eq_def]
    simp [hnull]
  | list item =>
    rw [InputType.convert.eq_def]
    simp only []
    split <;> simp_all
  | nonNull inner => simp [InputType.isNonNull] at h
  | reference name =>
    rw [InputType.convert.eq_def]
    simp [hnull]

theorem convert_nonNull {inner : InputType} :
    (InputType.nonNull inner).convert registry source node =
      (inner.convert registry source node).filter fun value => !value.isNull := by
  rw [InputType.convert.eq_def]

theorem convert_named {type : NamedType} :
    (InputType.named type).convert registry source node = type.convert registry source node := by
  rw [InputType.convert.eq_def]

theorem convert_reference {name : String} (h : node.value ≠ .null) :
    (InputType.reference name).convert registry source node =
      (registry.get? name).bind fun type =>
        (InputType.named type).convert registry source node := by
  rw [InputType.convert.eq_def]
  simp only [Literal.Node.kind_eq_null, h, ↓reduceIte]
  cases registry.get? name <;> simp [convert_named]

theorem convertItems_nil {item : InputType} : convertItems registry source item [] = some [] := by
  rw [convertItems.eq_def]

theorem convertItems_cons {item : InputType} {part : Literal.Node} {rest : List Literal.Node} :
    convertItems registry source item (part :: rest) =
      (item.convert registry source part).bind fun value =>
        (convertItems registry source item rest).map (value :: ·) := by
  rw [convertItems.eq_def]
  simp only []
  cases item.convert registry source part <;> rfl

theorem convert_list {item : InputType} {items : List Literal.Node} (h : node.value = .list items) :
    (InputType.list item).convert registry source node =
      (convertItems registry source item items).map .array := by
  rw [InputType.convert.eq_def]
  simp only []
  split <;> simp_all

theorem convert_lone {item : InputType} (h : node.value ≠ .null)
    (hlist : ∀ items, node.value ≠ .list items) :
    (InputType.list item).convert registry source node =
      (item.convert registry source node).map fun value => .array [value] := by
  rw [InputType.convert.eq_def]
  simp only []

theorem convert_builtin {scalar : Builtin} (h : node.value ≠ .null) :
    (InputType.named (.builtin scalar)).convert registry source node =
      (scalar.parseLiteral source node).toOption := by
  rw [convert_named, NamedType.convert.eq_def]
  simp [h]

theorem convert_enum {enum : EnumType} (h : node.value ≠ .null) :
    (InputType.named (.enum enum)).convert registry source node = enum.convert node := by
  rw [convert_named, NamedType.convert.eq_def]
  simp [h]

theorem convert_object {object : ObjectType} {given : List Literal.Field}
    (h : node.value = .object given) :
    (InputType.named (.object object)).convert registry source node =
      if given.all fun field => (object.field? field.name.text).isSome then
        (convertFields registry source given object.fields).map .object
      else none := by
  rw [convert_named, NamedType.convert.eq_def]
  simp only [Literal.Node.kind_eq_null]
  split <;> split <;> simp_all

theorem convert_not_object {object : ObjectType} (h : node.value ≠ .null)
    (hobject : ∀ given, node.value ≠ .object given) :
    (InputType.named (.object object)).convert registry source node = none := by
  rw [convert_named, NamedType.convert.eq_def]
  simp only [Literal.Node.kind_eq_null, h, ↓reduceIte]

theorem convert_union {union : UnionType} (h : node.value ≠ .null) :
    (InputType.named (.union union)).convert registry source node =
      (union.parseLiteral registry source node).toOption := by
  rw [convert_named, NamedType.convert.eq_def]
  simp [h]

theorem parseLiteral_of_typeOfNode_error {union : UnionType} {error : UnionError}
    (h : union.typeOfNode source node = .error error) :
    union.parseLiteral registry source node = .error error := by
  rw [UnionType.parseLiteral.eq_def]
  split <;> simp_all

theorem parseLiteral_of_typeOfNode {union : UnionType} {type : NamedType}
    (h : union.typeOfNode source node = .ok type) : union.parseLiteral registry source node =
      gateLiteral union.name registry source node (.named type) := by
  rw [UnionType.parseLiteral.eq_def, gateLiteral, convert_named]
  split
  · simp_all
  · rename_i hty
    cases hty.symm.trans h
    rfl

/-- A union takes a literal if it names a candidate that the literal converts under, and makes of it
what the candidate does. -/
theorem parseLiteral_eq_ok_iff {union : UnionType} {out : Json} :
    union.parseLiteral registry source node = .ok out ↔
      ∃ type, union.typeOfNode source node = .ok type ∧
        (InputType.named type).convert registry source node = some out := by
  rw [UnionType.parseLiteral.eq_def]
  split
  · rename_i hty
    simp [hty]
  · rename_i type hty
    simp only [hty, Except.ok.injEq, exists_eq_left', convert_named]
    split <;> simp_all

/-- What a declared field becomes, given the fields of the literal. -/
def convertField (registry : Registry) (source : Source) (given : List Literal.Field)
    (field : Field) : Option (List (String × Json)) :=
  match given.find? fun other => other.name.text = field.name with
  | some found =>
    (field.type.convert registry source found.value).map fun value => [(field.name, value)]
  | none => defaultMember? field

theorem convertFields_nil {given : List Literal.Field} :
    convertFields registry source given [] = some [] := by
  rw [convertFields.eq_def]

theorem convertFields_cons {given : List Literal.Field} {field : Field} {rest : List Field} :
    convertFields registry source given (field :: rest) =
      (convertField registry source given field).bind fun members =>
        (convertFields registry source given rest).map (members ++ ·) := by
  rw [convertFields.eq_def]
  simp only [convertField]
  split <;> rename_i heq <;> split at heq <;> rename_i hfind <;> simp only [hfind, heq] <;> rfl

theorem Builtin.parseLiteral_ne_null {scalar : Builtin} :
    scalar.parseLiteral source node ≠ .ok .null := by
  intro h
  cases scalar with
  | int => simp only [parseLiteral, intOfSpelling] at h; grind
  | float => simp only [parseLiteral, floatOfSpelling] at h; grind
  | _ => simp only [parseLiteral] at h; grind

/-- Only a null literal becomes null. -/
theorem convert_ne_null {type : InputType} (h : node.value ≠ .null) :
    type.convert registry source node ≠ some .null := by
  induction type, node using nodeInduction registry source with
  | null type node _ hnull => exact absurd hnull h
  | nonNull inner node ih =>
    rw [convert_nonNull]
    intro hfilter
    simp [Option.filter_eq_some_iff] at hfilter
  | reference name node hnull ih =>
    rw [convert_reference hnull]
    intro hbind
    obtain ⟨type, hget, hconvert⟩ := Option.bind_eq_some_iff.mp hbind
    exact ih type hget h hconvert
  | list item node items hvalue ih => simp [convert_list hvalue]
  | lone item node hnull hlist ih => simp [convert_lone hnull hlist]
  | builtin scalar node hnull =>
    rw [convert_builtin hnull]
    intro hconvert
    exact Builtin.parseLiteral_ne_null (toOption_eq_some.mp hconvert)
  | enum enum node hnull =>
    rw [convert_enum hnull]
    unfold EnumType.convert
    grind
  | object object node given hvalue ih =>
    rw [convert_object hvalue]
    split <;> simp
  | other object node hnull hobject => simp [convert_not_object hnull hobject]
  | union union node hnull ih =>
    rw [convert_union hnull]
    intro hconvert
    cases hparse : union.parseLiteral registry source node with
    | error error => simp [hparse, Except.toOption] at hconvert
    | ok out =>
      simp only [hparse, Except.toOption, Option.some.injEq] at hconvert
      subst hconvert
      obtain ⟨type, htype, hout⟩ := parseLiteral_eq_ok_iff.mp hparse
      exact ih type htype h hout

theorem convert_null_nonNull {inner : InputType} (hnull : node.value = .null) :
    (InputType.nonNull inner).convert registry source node = none := by
  rw [convert_nonNull]
  cases inner with
  | nonNull inner => rw [convert_null_nonNull hnull, Option.filter_none]
  | _ =>
    rw [convert_null rfl hnull]
    rfl

theorem convert_nonNull_of_ne_null {inner : InputType} (h : node.value ≠ .null) :
    (InputType.nonNull inner).convert registry source node =
      inner.convert registry source node := by
  rw [convert_nonNull]
  cases hinner : inner.convert registry source node with
  | none => rfl
  | some value =>
    have hvalue : value ≠ .null := fun hnull => convert_ne_null h (hnull ▸ hinner)
    exact Option.filter_some_pos (by simpa using hvalue)

end Equations

end TaggedUnion
