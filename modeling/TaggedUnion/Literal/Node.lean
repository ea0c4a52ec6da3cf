import TaggedUnion.Text.Span

/-!
# Literals as trees

A literal is an input value written in query text. Numbers keep their spelling: the scalar that
takes a number decides how to read it. The fields of an object keep their order, also when a name
is repeated.
-/

namespace TaggedUnion.Literal

/-- A name and where it stands. -/
structure Name where
  text : String
  span : Span
  deriving DecidableEq, Repr

mutual

/-- A literal and where it stands. -/
structure Node where
  value : Value
  span : Span

/-- What a literal says. -/
inductive Value where
  | null
  | int (text : String)
  | float (text : String)
  /-- The contents, with the escapes decoded. -/
  | string (contents : String)
  | boolean (value : Bool)
  /-- A bare name other than `null`, `true` and `false`. -/
  | enum (name : String)
  | list (items : List Node)
  | object (fields : List Field)

/-- A field of an object literal, from its name to the end of its value. -/
structure Field where
  name : Name
  value : Node
  span : Span

end

/-- The kinds of literals. -/
inductive Kind where
  | null
  | int
  | float
  | string
  | boolean
  | enum
  | list
  | object
  deriving DecidableEq, Repr

namespace Node

/-- The kind of the literal. -/
def kind (node : Node) : Kind :=
  match node.value with
  | .null => .null
  | .int _ => .int
  | .float _ => .float
  | .string _ => .string
  | .boolean _ => .boolean
  | .enum _ => .enum
  | .list _ => .list
  | .object _ => .object

/-- The fields of an object literal, in the order in which they are written. -/
def fields? (node : Node) : Option (List Field) :=
  match node.value with
  | .object fields => some fields
  | _ => none

/-- The first field of a given name. -/
def field? (name : String) (node : Node) : Option Field :=
  node.fields?.bind fun fields => fields.find? fun field => field.name.text = name

/-- The text of a string, an enum value or a number: the contents, the name or the spelling. -/
def scalarText? (node : Node) : Option String :=
  match node.value with
  | .string text => some text
  | .enum text => some text
  | .int text => some text
  | .float text => some text
  | _ => none

end Node

end TaggedUnion.Literal
