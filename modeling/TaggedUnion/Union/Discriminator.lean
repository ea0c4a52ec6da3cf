import TaggedUnion.Json.Printer
import TaggedUnion.Union.Candidate

/-!
# Discriminators

How a union reads from a value, or from a literal, which candidate it belongs to: by the member that
the type key names, by the member `_type_` of a wrapper, or by a function given to it.

In a runtime value a member counts only if it is truthy, and it may be of any kind. In a literal the
key has to be a string or a bare name, and the wrapper's two fields have to come first and in order.
-/

namespace TaggedUnion

namespace Json

/-- Whether a value counts as present: not null, false, a zero or an empty string. -/
def isTruthy : Json → Bool
  | null => false
  | bool value => value
  | number value => !value.isZero
  | string value => value ≠ ""
  | array _ => true
  | object _ => true

/-- The key that a value stands for: the contents of a string, the text of anything else. -/
def keyText : Json → String
  | string value => value
  | value => value.compact

/-- The key in a member of a value, if the member is truthy. -/
def memberKey? (name : String) (value : Json) : Option String :=
  ((value.member? name).filter isTruthy).map keyText

end Json

/-- The key that a literal stands for: the contents of a string or a bare name. -/
def Literal.Node.key? (node : Literal.Node) : Option String :=
  match node.value with
  | .string contents => some contents
  | .enum name => some name
  | _ => none

/-- What a union reads from a literal: the candidate itself, or its key. -/
inductive LiteralTarget where
  | type (type : InputType)
  | key (key : String)

namespace UnionType

/-- The key of a runtime value. -/
def valueKey (union : UnionType) (value : Json) : Except UnionError String :=
  match union.keyOfValue, union.typeKey with
  | some keyOfValue, _ => .ok (keyOfValue value)
  | none, some field =>
    match value.memberKey? field with
    | some key => .ok key
    | none => .error (.missingDiscriminatorField union.name field)
  | none, none =>
    match value.memberKey? typeField, value.memberKey? valueField with
    | some key, some _ => .ok key
    | _, _ => .error (.malformedUnionValue union.name)

/-- The key in the first field of a wrapper literal. -/
def wrapperKey? (node : Literal.Node) : Option String :=
  match node.fields?.getD [] with
  | first :: second :: _ =>
    if first.name.text = typeField ∧ second.name.text = valueField then first.value.key? else none
  | _ => none

/-- The candidate of a literal, or its key. -/
def literalTarget (union : UnionType) (source : Source) (node : Literal.Node) :
    Except UnionError LiteralTarget :=
  match union.typeOfLiteral, union.typeKey with
  | some typeOfLiteral, _ =>
    match typeOfLiteral node with
    | some type => .ok (.type type)
    | none => .error (.unresolvedLiteral union.name (source.slice node.span))
  | none, some field =>
    match (node.field? field).bind fun field => field.value.key? with
    | some key => .ok (.key key)
    | none => .error (.missingDiscriminatorField union.name field)
  | none, none =>
    match wrapperKey? node with
    | some key => .ok (.key key)
    | none => .error (.malformedUnionLiteral union.name)

/-- The type that a runtime value has to conform to. -/
def typeOfValue (union : UnionType) (value : Json) : Except UnionError NamedType :=
  match union.valueKey value with
  | .error error => .error error
  | .ok key => union.lookup.resolve union.name key

/-- The type that a literal has to match. -/
def typeOfNode (union : UnionType) (source : Source) (node : Literal.Node) :
    Except UnionError NamedType :=
  match union.literalTarget source node with
  | .error error => .error error
  | .ok (.type type) => ensureCandidate union.name type.text type
  | .ok (.key key) => union.lookup.resolve union.name key

end UnionType

end TaggedUnion
