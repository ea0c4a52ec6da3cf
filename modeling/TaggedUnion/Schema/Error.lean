import TaggedUnion.Union.Error

/-!
# What is wrong with a schema
-/

namespace TaggedUnion

/-- Why a type cannot be registered, a type reference read or a schema built. -/
inductive SchemaError where
  | invalidName (name : String)
  | duplicateType (name : String)
  | duplicateField (typeName field : String)
  /-- Only named types can be registered. -/
  | notNamed (typeText : String)
  | unknownType (name referencedBy : String)
  | invalidTypeRef (text : String)
  /-- Each union lists the next one, and the last one is the first. -/
  | unionCycle (names : List String)
  | union (error : UnionError)
  deriving DecidableEq, Repr

/-- The wording of an error. -/
def SchemaError.message : SchemaError → String
  | invalidName name =>
    "invalid name \"" ++ name ++ "\": names must match /^[_A-Za-z][_0-9A-Za-z]*$/"
  | duplicateType name => "type \"" ++ name ++ "\" is defined more than once"
  | duplicateField typeName field =>
    "field \"" ++ field ++ "\" is defined more than once on type \"" ++ typeName ++ "\""
  | notNamed typeText => "\"" ++ typeText ++ "\" is not a named type and cannot be registered"
  | unknownType name referencedBy =>
    "unknown type \"" ++ name ++ "\" referenced by \"" ++ referencedBy ++ "\""
  | invalidTypeRef text => "invalid type reference \"" ++ text ++ "\""
  | unionCycle names =>
    "unions form a cycle through their input types: " ++ " -> ".intercalate names
  | union error => error.message

end TaggedUnion
