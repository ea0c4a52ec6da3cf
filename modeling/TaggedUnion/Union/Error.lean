import TaggedUnion.InputType.Basic

/-!
# What can go wrong with a union

Every error names the union it arose in. `UnionError.kind` is the stable name that reports give,
`UnionError.message` the wording.
-/

namespace TaggedUnion

/-- Why a union cannot be built, or refuses a value or a literal. -/
inductive UnionError where
  | invalidCandidateKind (union candidate : String) (kind : TypeKind)
  | duplicateDiscriminator (union key : String)
  | missingDiscriminatorField (union field : String)
  | malformedUnionValue (union : String)
  | malformedUnionLiteral (union : String)
  /-- No candidate has the key. `expected` lists all keys, if they are known. -/
  | unknownDiscriminatorValue (union key : String) (expected : List String)
  /-- The value does not conform to its candidate, for the reasons given in the report. -/
  | coercionFailed (union typeText report : String)
  | literalTypeMismatch (union typeText found : String)
  | unresolvedLiteral (union found : String)
  | noValueResolution (union : String)
  | missingCandidates (union : String)
  | invalidName (union : String)
  deriving DecidableEq, Repr

namespace UnionError

/-- The stable name of the kind of error. -/
def kind : UnionError → String
  | invalidCandidateKind .. => "InvalidCandidateKind"
  | duplicateDiscriminator .. => "DuplicateDiscriminator"
  | missingDiscriminatorField .. => "MissingDiscriminatorField"
  | malformedUnionValue _ => "MalformedUnionValue"
  | malformedUnionLiteral _ => "MalformedUnionLiteral"
  | unknownDiscriminatorValue .. => "UnknownDiscriminatorValue"
  | coercionFailed .. => "CoercionFailed"
  | literalTypeMismatch .. => "LiteralTypeMismatch"
  | unresolvedLiteral .. => "UnresolvedLiteral"
  | noValueResolution _ => "NoValueResolution"
  | missingCandidates _ => "MissingCandidates"
  | invalidName _ => "InvalidName"

/-- The union that the error arose in. -/
def union : UnionError → String
  | invalidCandidateKind union _ _ => union
  | duplicateDiscriminator union _ => union
  | missingDiscriminatorField union _ => union
  | malformedUnionValue union => union
  | malformedUnionLiteral union => union
  | unknownDiscriminatorValue union _ _ => union
  | coercionFailed union _ _ => union
  | literalTypeMismatch union _ _ => union
  | unresolvedLiteral union _ => union
  | noValueResolution union => union
  | missingCandidates union => union
  | invalidName union => union

/-- What a message says about the keys that would have been right. -/
def expectedHint (expected : List String) : String :=
  if expected.isEmpty then "The type resolver returned no type."
  else "Expected one of: " ++ ", ".intercalate expected

/-- The wording of an error after the name of the union. -/
def detail : UnionError → String
  | invalidCandidateKind _ candidate kind =>
    "all inputTypes must be object or scalar types, \"" ++ candidate ++ "\" is of kind " ++
      kind.text
  | duplicateDiscriminator _ key => "input type key \"" ++ key ++ "\" is defined more than once"
  | missingDiscriminatorField _ field => "Expected an object with \"" ++ field ++ "\" property"
  | malformedUnionValue _ => "Expected an object with _type_ and _value_ properties in this order"
  | malformedUnionLiteral _ =>
    "Expected an object literal with _type_ and _value_ fields in this order"
  | unknownDiscriminatorValue _ key expected =>
    "\"" ++ key ++ "\" is not a valid type. " ++ expectedHint expected
  | coercionFailed _ typeText report =>
    "value does not match type \"" ++ typeText ++ "\":\n" ++ report
  | literalTypeMismatch _ typeText found => "expected type " ++ typeText ++ ", found " ++ found
  | unresolvedLiteral _ found => "no input type could be resolved for " ++ found
  | noValueResolution _ => "runtime values need inputTypes or resolveType"
  | missingCandidates _ => "one of inputTypes, resolveType or resolveTypeFromAst is required"
  | invalidName _ => "is not a valid union name"

/-- The wording of an error. -/
def message : UnionError → String
  | invalidName union => "\"" ++ union ++ "\" is not a valid union name"
  | error => error.union ++ "(UnionInputType): " ++ error.detail

end UnionError

end TaggedUnion
