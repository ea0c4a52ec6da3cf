import TaggedUnion.Coercion.Literal

/-!
# Scalars

A scalar is a built-in scalar or a union: a type that decides by itself which values and literals it
takes, and what it makes of them. A type is followed one step through the registry to its scalar.
-/

namespace TaggedUnion

/-- A built-in scalar or a union. -/
inductive Scalar where
  | builtin (scalar : Builtin)
  | union (union : UnionType)

/-- The scalar that a named type is. -/
def NamedType.scalar? : NamedType → Option Scalar
  | builtin scalar => some (.builtin scalar)
  | union u => some (.union u)
  | object _ => none
  | enum _ => none

/-- The scalar that a type leads to. -/
def Registry.scalar? (registry : Registry) (type : InputType) : Option Scalar :=
  match registry.resolve type with
  | some (.named type) => type.scalar?
  | _ => none

namespace Scalar

/-- What a scalar makes of a runtime value. -/
def parseValue (registry : Registry) (value : Json) : Scalar → Except ScalarError Json
  | builtin scalar => scalar.parseValue value
  | union u => (u.parseValue registry value).mapError .union

/-- What a scalar makes of a literal. -/
def parseLiteral (registry : Registry) (source : Source) (node : Literal.Node) :
    Scalar → Except ScalarError Json
  | builtin scalar => scalar.parseLiteral source node
  | union u => (u.parseLiteral registry source node).mapError .union

/-- How a value of a scalar is written out: as it is. -/
def serialize (_ : Scalar) (value : Json) : Json := value

end Scalar

end TaggedUnion
