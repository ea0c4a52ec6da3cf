import TaggedUnion.Coercion.Value

/-!
# Converting literals

`InputType.convert` gives the value that a literal has under a type, or nothing when the literal
does not match the type. Lone items, defaults and the order of fields are as for runtime values. Of
fields with one name the first counts.

A union converts the literal under the candidate that it names. It ends for the same reasons as the
check of runtime values.
-/

namespace TaggedUnion

/-- The value of an enum literal: its name, if it is one of the values. -/
def EnumType.convert (node : Literal.Node) (enum : EnumType) : Option Json :=
  match node.value with
  | .enum name => if name ∈ enum.values then some (.string name) else none
  | _ => none

/-- What becomes of a field that is left out: its default, or nothing unless it has to be given. -/
def defaultMember? (field : Field) : Option (List (String × Json)) :=
  match field.default? with
  | some value => some [(field.name, value)]
  | none => if field.type.isNonNull then none else some []

theorem Literal.sizeOf_value_lt (node : Literal.Node) : sizeOf node.value < sizeOf node := by
  cases node
  simp; omega

theorem Literal.sizeOf_value_lt_of_find {fields : List Literal.Field} {field : Literal.Field}
    {p : Literal.Field → Bool} (h : fields.find? p = some field) :
    sizeOf field.value < sizeOf fields := by
  have := List.sizeOf_lt_of_mem (List.mem_of_find?_eq_some h)
  cases field
  simp at this ⊢
  omega

mutual

/-- The value of a literal under a type. -/
def InputType.convert (registry : Registry) (source : Source) (node : Literal.Node)
    (type : InputType) : Option Json :=
  match type with
  | .named type => type.convert registry source node
  | .nonNull inner => (inner.convert registry source node).filter fun value => !value.isNull
  | .reference name =>
    if node.kind = .null then some .null
    else
      match registry.get? name with
      | some type => type.convert registry source node
      | none => none
  | .list item =>
    match h : node.value with
    | .null => some .null
    | .list items =>
      have : sizeOf items < sizeOf node := by
        have := Literal.sizeOf_value_lt node
        rw [h] at this
        simp at this
        omega
      (convertItems registry source item items).map .array
    -- A lone item stands for a list of one.
    | _ => (item.convert registry source node).map fun value => .array [value]
termination_by (sizeOf node, type, 2)
decreasing_by
  · exact .right _ (.right _ Nat.one_lt_two)
  · exact .right _ (.left _ _ .inner)
  · exact .right _ (.left _ _ .target)
  · decreasing_tactic
  · exact .right _ (.left _ _ .item)

/-- The value of a literal under a named type. -/
def NamedType.convert (registry : Registry) (source : Source) (node : Literal.Node)
    (type : NamedType) : Option Json :=
  if node.kind = .null then some .null
  else
    match type with
    | .builtin scalar => (scalar.parseLiteral source node).toOption
    | .enum enum => enum.convert node
    | .object object =>
      match h : node.value with
      | .object given =>
        have : sizeOf given < sizeOf node := by
          have := Literal.sizeOf_value_lt node
          rw [h] at this
          simp at this
          omega
        if given.all fun field => (object.field? field.name.text).isSome then
          (convertFields registry source given object.fields).map .object
        else none
      | _ => none
    | .union u => (u.parseLiteral registry source node).toOption
termination_by (sizeOf node, InputType.named type, 1)

/-- Finds the candidate that a literal names, and converts the literal under it. -/
def UnionType.parseLiteral (registry : Registry) (source : Source) (node : Literal.Node)
    (union : UnionType) : Except UnionError Json :=
  match h : union.typeOfNode source node with
  | .error error => .error error
  | .ok type =>
    have := UnionType.before_of_typeOfNode h
    match type.convert registry source node with
    | some value => .ok value
    | none => .error (.literalTypeMismatch union.name type.name (source.slice node.span))
termination_by (sizeOf node, InputType.named (.union union), 0)

/-- The values of the items of a list, all under one type. -/
def convertItems (registry : Registry) (source : Source) (item : InputType)
    (items : List Literal.Node) : Option (List Json) :=
  match items with
  | [] => some []
  | node :: rest =>
    match item.convert registry source node with
    | none => none
    | some value => (convertItems registry source item rest).map (value :: ·)
termination_by (sizeOf items, item, 0)

/-- The members that the fields of an object literal make for declared fields, in the order of
declaration. -/
def convertFields (registry : Registry) (source : Source) (given : List Literal.Field)
    (fields : List Field) : Option (List (String × Json)) :=
  match fields with
  | [] => some []
  | field :: rest =>
    let members? :=
      match h : given.find? fun other => other.name.text = field.name with
      | some found =>
        have := Literal.sizeOf_value_lt_of_find h
        (field.type.convert registry source found.value).map fun value => [(field.name, value)]
      | none => defaultMember? field
    match members? with
    | none => none
    | some members => (convertFields registry source given rest).map (members ++ ·)
termination_by (sizeOf given, (default : InputType), sizeOf fields)

end

/-- The verdict of a union on a literal under a given type: its value, or the text that does not
match. -/
def gateLiteral (union : String) (registry : Registry) (source : Source) (node : Literal.Node)
    (type : InputType) : Except UnionError Json :=
  match type.convert registry source node with
  | some value => .ok value
  | none => .error (.literalTypeMismatch union type.text (source.slice node.span))

/-- The verdict of a union on a value under a given type. -/
def gateValue (union : String) (registry : Registry) (value : Json) (type : InputType) :
    Except UnionError Json :=
  gate union type.text value (type.coerce registry value)

end TaggedUnion
