import TaggedUnion.Schema.Error
import TaggedUnion.Text.Name

/-!
# Registries

The named types that references are looked up among, in the order of their registration, the
built-in scalars first. A type is found under its own name.

* `Registry.registerInPlace`: a call that changes the registry, or is refused.
* `Registry.register`, `Registry.add`: the registry that such a call leaves behind, if it is not
  refused.
-/

namespace TaggedUnion

/-- The registered types in order. -/
structure Registry where
  types : List NamedType

namespace Registry

/-- The registry with only the built-in scalars. -/
def builtins : Registry := ⟨Builtin.all.map .builtin⟩

/-- The type of a given name. -/
def get? (name : String) (registry : Registry) : Option NamedType :=
  registry.types.find? fun type => type.name = name

/-- Whether a type of that name is registered. -/
def contains (name : String) (registry : Registry) : Bool := (registry.get? name).isSome

/-- Registers a named type. Its name has to obey the name rule and to be new. -/
def addInPlace (type : NamedType) : ExceptT SchemaError (StateM Registry) Unit := do
  if !Text.isName type.name then
    throw (.invalidName type.name)
  if (← get).contains type.name then
    throw (.duplicateType type.name)
  modify fun registry => ⟨registry.types ++ [type]⟩

/-- Registers a type, which has to be a named one. -/
def registerInPlace (type : InputType) : ExceptT SchemaError (StateM Registry) Unit :=
  match type with
  | .named type => addInPlace type
  | type => throw (.notNamed type.text)

/-- The registry that a call leaves behind, if it is not refused. -/
def outcome (call : ExceptT SchemaError (StateM Registry) Unit) (registry : Registry) :
    Except SchemaError Registry :=
  let done := call.run.run registry
  done.1.map fun () => done.2

/-- The registry with one more named type. -/
def add (type : NamedType) (registry : Registry) : Except SchemaError Registry :=
  registry.outcome (addInPlace type)

/-- The registry with one more type. -/
def register (type : InputType) (registry : Registry) : Except SchemaError Registry :=
  registry.outcome (registerInPlace type)

/-- What a reference leads to in one step. Any other type stands for itself. -/
def resolve (registry : Registry) : InputType → Option InputType
  | .reference name => (registry.get? name).map .named
  | type => some type

end Registry

end TaggedUnion
