import TaggedUnion.Json.Basic
import TaggedUnion.Literal.Node

/-!
# Input types

An input type is a named type, a list of an input type, an input type without null, or a name that
is looked up only when a value is checked. The late lookup is what lets a type reach itself again:
no type has to contain itself.

* `NamedType`: built-in scalars, unions, objects and enums. These are what a registry holds.
* `InputType`: what fields and candidates are declared with.
* `UnionType`: the candidates of a union and the way to choose among them, which may be functions
  given to it.
-/

namespace TaggedUnion

/-- The scalars that every registry starts with. -/
inductive Builtin where
  | string
  | int
  | float
  | boolean
  | id
  deriving DecidableEq, Repr

/-- The name of a built-in scalar. -/
def Builtin.name : Builtin → String
  | string => "String"
  | int => "Int"
  | float => "Float"
  | boolean => "Boolean"
  | id => "ID"

/-- The built-in scalars in the order in which they are registered. -/
def Builtin.all : List Builtin := [.string, .int, .float, .boolean, .id]

/-- An enum type with its values in order. -/
structure EnumType where
  name : String
  description : Option String
  values : List String
  deriving DecidableEq, Repr

/-- The enum type with the given values. A repeated value counts once, where it comes first. -/
def EnumType.ofValues (name : String) (description : Option String) (values : List String) :
    EnumType :=
  ⟨name, description,
    values.foldl (fun known value => if value ∈ known then known else known ++ [value]) []⟩

mutual

/-- A type with a name of its own. -/
inductive NamedType where
  | builtin (scalar : Builtin)
  | union (union : UnionType)
  | object (object : ObjectType)
  | enum (enum : EnumType)

/-- A type of input values. -/
inductive InputType where
  | named (type : NamedType)
  | list (item : InputType)
  | nonNull (inner : InputType)
  /-- A name to look up in the registry when a value is checked. -/
  | reference (name : String)

/-- An object type. Its fields keep the order of declaration. -/
structure ObjectType where
  name : String
  description : Option String
  fields : List Field

/-- A field of an object type, and the value it gets when it is left out. -/
structure Field where
  name : String
  type : InputType
  description : Option String
  default? : Option Json

/-- A union. The functions `keyOfValue` and `typeOfLiteral` take the place of the type key for
runtime values and for literals. -/
structure UnionType where
  name : String
  description : Option String
  /-- The member that names the candidate. Without it, values are wrapped in an object. -/
  typeKey : Option String
  lookup : Lookup
  keyOfValue : Option (Json → String)
  typeOfLiteral : Option (Literal.Node → Option InputType)

/-- How a union finds the candidate of a key. -/
inductive Lookup where
  /-- The candidates under their keys. -/
  | table (entries : List (String × NamedType))
  /-- A function asked for each key. Its answer is wrapped if `wrap` is set. -/
  | deferred (types : String → Option InputType) (wrap : Bool)
  /-- There is no way from a key to a candidate. -/
  | absent

end

/-- The kinds of input types. -/
inductive TypeKind where
  | scalar
  | object
  | enum
  | list
  | nonNull
  | reference
  deriving DecidableEq, Repr

/-- How messages and descriptions call a kind of types. -/
def TypeKind.text : TypeKind → String
  | scalar => "scalar"
  | object => "object"
  | enum => "enum"
  | list => "list"
  | nonNull => "non-null"
  | reference => "named reference"

namespace NamedType

/-- The name of the type. -/
def name : NamedType → String
  | builtin scalar => scalar.name
  | union u => u.name
  | object o => o.name
  | enum e => e.name

/-- The kind of the type. A union is a scalar. -/
def kind : NamedType → TypeKind
  | builtin _ => .scalar
  | union _ => .scalar
  | object _ => .object
  | enum _ => .enum

/-- The description of the type. -/
def description : NamedType → Option String
  | builtin _ => none
  | union u => u.description
  | object o => o.description
  | enum e => e.description

end NamedType

namespace InputType

/-- The name of a named type or of a reference. -/
def name? : InputType → Option String
  | named type => some type.name
  | reference name => some name
  | list _ => none
  | nonNull _ => none

/-- The kind of the type. -/
def kind : InputType → TypeKind
  | named type => type.kind
  | list _ => .list
  | nonNull _ => .nonNull
  | reference _ => .reference

/-- Whether the type excludes null. -/
def isNonNull : InputType → Bool
  | nonNull _ => true
  | _ => false

/-- The type as it is written in a schema: a name, `[T]` or `T!`. -/
def text : InputType → String
  | named type => type.name
  | reference name => name
  | list item => "[" ++ item.text ++ "]"
  | nonNull inner => inner.text ++ "!"

end InputType

namespace ObjectType

/-- The field of a given name. -/
def field? (name : String) (object : ObjectType) : Option Field :=
  object.fields.find? fun field => field.name = name

/-- Adds a field. A field of that name is replaced and keeps its place. -/
def addField (field : Field) (object : ObjectType) : ObjectType :=
  { object with fields := insert object.fields }
where
  /-- Adds the field to a list. -/
  insert : List Field → List Field
    | [] => [field]
    | other :: rest => if other.name = field.name then field :: rest else other :: insert rest

end ObjectType

end TaggedUnion
