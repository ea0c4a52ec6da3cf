import TaggedUnion.Text.Name
import TaggedUnion.Union.Candidate
import TaggedUnion.Union.CaseTable

/-!
# Building a union

A union is built from a configuration. A function from keys to candidates takes precedence over
listed candidates, and a union without a type key wraps its candidates. The functions may be given
as case tables.
-/

namespace TaggedUnion

/-- What a union is built from. -/
structure UnionConfig where
  name : String
  description : Option String := none
  typeKey : Option String := none
  inputTypes : Option Candidates := none
  /-- The candidate of a key. -/
  resolveType : Option (String → Option InputType) := none
  /-- The candidate of a literal. -/
  resolveTypeFromLiteral : Option (Literal.Node → Option InputType) := none
  /-- The key of a runtime value. -/
  resolveTypeFromValue : Option (Json → String) := none

namespace UnionConfig

/-- The way from a key to a candidate. A union needs one, or a function that chooses the candidates
of literals. -/
def lookup (config : UnionConfig) : Except UnionError Lookup :=
  let wrap := config.typeKey.isNone
  match config.resolveType, config.inputTypes with
  | some types, _ => .ok (.deferred types wrap)
  | none, some candidates => Lookup.ofCandidates config.name candidates wrap
  | none, none =>
    if config.resolveTypeFromLiteral.isSome then .ok .absent
    else .error (.missingCandidates config.name)

/-- The union of a configuration. Its name has to obey the name rule. -/
def build (config : UnionConfig) : Except UnionError UnionType :=
  if !Text.isName config.name then .error (.invalidName config.name)
  else
    config.lookup.map fun lookup =>
      { name := config.name
        description := config.description
        typeKey := config.typeKey
        lookup := lookup
        keyOfValue := config.resolveTypeFromValue
        typeOfLiteral := config.resolveTypeFromLiteral }

end UnionConfig

end TaggedUnion
