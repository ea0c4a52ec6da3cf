import TaggedUnion.InputType.Reference
import TaggedUnion.Schema.Basic
import TaggedUnion.Schema.Document
import TaggedUnion.Union.Basic

/-!
# Building a schema

`Document.build` makes the schema that a document declares. Objects and enums are registered first,
in the order of the document. Fields name their types late, so objects may come in any order. The
candidates of a union are part of it, so a union is built after the unions that it lists: the
candidates are followed depth first (`ensure`), and each union is registered when it is built.

A union that is being built is taken out of the declarations that remain, so following candidates
ends: coming back to it is a cycle.
-/

namespace TaggedUnion.Document

/-- The object type of a declaration. Its fields must not be repeated. -/
def objectType (declaration : ObjectDef) : Except SchemaError ObjectType :=
  (declaration.fields.foldlM addField []).map fun fields =>
    ⟨declaration.name, declaration.description, fields⟩
where
  /-- Adds a declared field to the ones before it. -/
  addField (fields : List Field) (declared : String × FieldDef) : Except SchemaError (List Field) :=
    if fields.any fun field => field.name = declared.1 then
      .error (.duplicateField declaration.name declared.1)
    else
      (InputType.parse declared.2.typeText).map fun type =>
        fields ++ [⟨declared.1, type, declared.2.description, declared.2.default?⟩]

/-- The enum type of a declaration. -/
def enumType (declaration : EnumDef) : EnumType :=
  .ofValues declaration.name declaration.description declaration.values

/-- The types registered and the unions declared so far. -/
abbrev Collected := Registry × List UnionDef

/-- Registers an object or enum, or keeps the declaration of a union for later. -/
def collect (known : Collected) (declaration : TypeDef) : Except SchemaError Collected :=
  let (registry, unions) := known
  match declaration with
  | .object declaration =>
    match objectType declaration with
    | .error error => .error error
    | .ok object => (registry.add (.object object)).map fun registry => (registry, unions)
  | .enum declaration =>
    (registry.add (.enum (enumType declaration))).map fun registry => (registry, unions)
  | .union declaration =>
    if unions.any fun other => other.name = declaration.name then
      .error (.duplicateType declaration.name)
    else .ok (registry, unions ++ [declaration])

/-! ## Unions -/

/-- The candidates of a declaration, given the types that it names in order. -/
def candidates (names : CandidateNames) (types : List NamedType) : Candidates :=
  match names with
  | .byName _ => .byName (types.map .named)
  | .keyed pairs => .keyed ((pairs.map Prod.fst).zip (types.map .named))

/-- The union of a declaration, given the types that it names in order. -/
def unionType (declaration : UnionDef) (types : List NamedType) : Except UnionError UnionType :=
  UnionConfig.build
    { name := declaration.name
      description := declaration.description
      typeKey := declaration.typeKey
      inputTypes := some (candidates declaration.inputTypes types) }

/-- Builds a union and adds it to the schema. -/
def addDeclared (declaration : UnionDef) (types : List NamedType) (schema : Schema) :
    Except SchemaError (NamedType × Schema) :=
  match unionType declaration types with
  | .error error => .error (.union error)
  | .ok union => (schema.addUnion union).map fun schema => (.union union, schema)

/-- The declarations of other names. -/
def others (name : String) (unions : List UnionDef) : List UnionDef :=
  unions.filter fun other => other.name ≠ name

theorem length_others_lt {unions : List UnionDef} {name : String} {declaration : UnionDef}
    (h : (unions.find? fun other => other.name = name) = some declaration) :
    (others name unions).length < unions.length := by
  have hname : declaration.name = name := by simpa using List.find?_some h
  exact List.length_filter_lt_length_iff_exists.mpr
    ⟨declaration, List.mem_of_find?_eq_some h, by simp [hname]⟩

mutual

/-- The type of a given name. A declared union that is not yet built is built, after its candidates.
`visiting` holds the unions being built, from the outermost on, and `remaining` the others that are
declared. -/
def ensure (remaining : List UnionDef) (visiting : List String) (name : String) (schema : Schema) :
    Except SchemaError (NamedType × Schema) :=
  match schema.registry.get? name with
  | some type => .ok (type, schema)
  | none =>
    if name ∈ visiting then .error (.unionCycle (visiting.dropWhile (· ≠ name) ++ [name]))
    else
      match h : remaining.find? fun other => other.name = name with
      | none => .error (.unknownType name (visiting.getLast?.getD ""))
      | some declaration =>
        have := length_others_lt h
        match ensureAll (others name remaining) (visiting ++ [name]) declaration.inputTypes.names
            schema with
        | .error error => .error error
        | .ok (types, schema) => addDeclared declaration types schema
termination_by (remaining.length, 0)

/-- The types of given names in order. -/
def ensureAll (remaining : List UnionDef) (visiting : List String) (names : List String)
    (schema : Schema) : Except SchemaError (List NamedType × Schema) :=
  match names with
  | [] => .ok ([], schema)
  | name :: rest =>
    match ensure remaining visiting name schema with
    | .error error => .error error
    | .ok (type, schema) =>
      match ensureAll remaining visiting rest schema with
      | .error error => .error error
      | .ok (types, schema) => .ok (type :: types, schema)
termination_by (remaining.length, names.length + 1)

end

/-! ## References -/

/-- Checks that the type of each field is registered. -/
def checkFields (registry : Registry) (declaration : ObjectDef) : Except SchemaError Unit :=
  declaration.fields.forM fun (name, field) =>
    match InputType.parse field.typeText with
    | .error error => .error error
    | .ok type =>
      if registry.contains type.innermostName then .ok ()
      else .error (.unknownType type.innermostName (declaration.name ++ "." ++ name))

/-- Checks the references of a declaration. -/
def checkReferences (registry : Registry) : TypeDef → Except SchemaError Unit
  | .object declaration => checkFields registry declaration
  | .enum _ => .ok ()
  | .union _ => .ok ()

/-- The schema that a document declares. -/
def build (document : Document) : Except SchemaError Schema :=
  match document.types.foldlM collect (Registry.builtins, []) with
  | .error error => .error error
  | .ok (registry, unions) =>
    match unions.find? fun union => registry.contains union.name with
    | some union => .error (.duplicateType union.name)
    | none =>
      match ensureAll unions [] (unions.map UnionDef.name) ⟨registry, []⟩ with
      | .error error => .error error
      | .ok (_, schema) =>
        (document.types.forM (checkReferences schema.registry)).map fun _ => schema

end TaggedUnion.Document
