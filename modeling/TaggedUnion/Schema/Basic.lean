import TaggedUnion.Json.Basic
import TaggedUnion.Registry
import TaggedUnion.Union.Candidate

/-!
# Schemas

A schema is a registry together with the unions that are known by name. `Schema.describe` gives an
overview of the registered types as a JSON value: objects with their fields, enums with their
values, unions with their type key and the keys of their candidates.
-/

namespace TaggedUnion

/-- A registry and the unions that values are resolved against, in order. -/
structure Schema where
  registry : Registry
  unions : List UnionType

namespace Schema

/-- The schema with the built-in scalars and without unions. -/
def empty : Schema := ⟨.builtins, []⟩

/-- The union of a given name. -/
def union? (name : String) (schema : Schema) : Option UnionType :=
  schema.unions.find? fun union => union.name = name

/-- Sets a union. One of that name is replaced and keeps its place. -/
def setUnion (union : UnionType) (schema : Schema) : Schema :=
  { schema with unions := insert schema.unions }
where
  /-- Sets the union in a list. -/
  insert : List UnionType → List UnionType
    | [] => [union]
    | other :: rest => if other.name = union.name then union :: rest else other :: insert rest

/-- Registers a union and makes it known by name. -/
def addUnion (union : UnionType) (schema : Schema) : Except SchemaError Schema :=
  (schema.registry.add (.union union)).map fun registry =>
    { schema.setUnion union with registry }

/-! ## Descriptions -/

/-- What a description says of the parts of a type. -/
def partsOf : NamedType → List (String × Json)
  | .object object =>
    [("fields", .object (object.fields.map fun field => (field.name, .string field.type.text)))]
  | .enum enum => [("values", .array (enum.values.map .string))]
  | _ => []

/-- A text, or null. -/
def textOrNull : Option String → Json
  | some text => .string text
  | none => .null

/-- What a description says of the candidates of a union. The keys are null if a function decides
for each value. -/
def candidatesOf (union : UnionType) : List (String × Json) :=
  let keys :=
    match union.lookup.keys? with
    | some keys => Json.array (keys.map .string)
    | none => .null
  [("typeKey", textOrNull union.typeKey), ("inputTypes", keys)]

/-- The description of a type. -/
def describeType (schema : Schema) (type : NamedType) : Json :=
  let union := schema.union? type.name
  let kind := if union.isSome then "union" else type.kind.text
  let description :=
    match type.description with
    | some text => [("description", Json.string text)]
    | none => []
  .object ([("name", .string type.name), ("kind", .string kind)] ++ partsOf type ++
    (union.map candidatesOf).getD [] ++ description)

/-- The description of all registered types in order. -/
def describe (schema : Schema) : Json :=
  .object [("types", .array (schema.registry.types.map schema.describeType))]

end Schema

end TaggedUnion
