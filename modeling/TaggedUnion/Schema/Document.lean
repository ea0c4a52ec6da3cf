import TaggedUnion.Json.Printer
import TaggedUnion.Json.SyntaxError
import TaggedUnion.Text.Printable

/-!
# Schema documents

A document declares object types, enums and unions. Fields name their types, and unions name their
candidates.

A declaration is read from the members of a JSON object, or from the items of an array that give
them in order (`TypeDef.ofMembers`, `TypeDef.ofItems`). Members may be repeated only where the
declaration keeps them as a list, that is as fields or candidates.
-/

namespace TaggedUnion

/-- The declaration of a field. -/
structure FieldDef where
  typeText : String
  description : Option String := none
  default? : Option Json := none
  deriving Repr

/-- The declaration of an object type. -/
structure ObjectDef where
  name : String
  description : Option String
  fields : List (String × FieldDef)
  deriving Repr

/-- The declaration of an enum. -/
structure EnumDef where
  name : String
  description : Option String
  values : List String
  deriving DecidableEq, Repr

/-- The names of the candidates of a union. -/
inductive CandidateNames where
  /-- Each one is its own key. -/
  | byName (names : List String)
  | keyed (pairs : List (String × String))
  deriving DecidableEq, Repr

/-- The names in order. -/
def CandidateNames.names : CandidateNames → List String
  | byName names => names
  | keyed pairs => pairs.map Prod.snd

/-- The declaration of a union. -/
structure UnionDef where
  name : String
  description : Option String
  typeKey : Option String
  inputTypes : CandidateNames
  deriving DecidableEq, Repr

/-- A declaration. -/
inductive TypeDef where
  | object (declaration : ObjectDef)
  | enum (declaration : EnumDef)
  | union (declaration : UnionDef)
  deriving Repr

/-- The declarations of a document in order. -/
structure Document where
  types : List TypeDef
  deriving Repr

/-! ## What is wrong with a document -/

/-- Why a text is not a schema document. -/
inductive DocumentFault where
  | syntaxError (cause : Json.SyntaxError)
  | missingField (name : String)
  | duplicateField (name : String)
  /-- `found` describes a value, `expected` what should have been there. -/
  | invalidType (found expected : String)
  | invalidLength (length : Nat) (expected : String)
  | unknownKind (name : String)
  /-- A part that may have several forms has none of them. -/
  | noForm (part : String)
  deriving DecidableEq, Repr

/-- The wording of a fault. -/
def DocumentFault.message : DocumentFault → String
  | syntaxError cause => cause.message
  | missingField name => "missing field `" ++ name ++ "`"
  | duplicateField name => "duplicate field `" ++ name ++ "`"
  | invalidType found expected => "invalid type: " ++ found ++ ", expected " ++ expected
  | invalidLength length expected =>
    "invalid length " ++ toString length ++ ", expected " ++ expected
  | unknownKind name =>
    "unknown variant `" ++ name ++ "`, expected one of `object`, `enum`, `union`"
  | noForm part => "data did not match any variant of untagged enum " ++ part

/-- A fault with its place: the path to the part of the document, and the bytes left behind it. -/
structure DocumentError where
  fault : DocumentFault
  path : List Json.PathStep
  remaining : Nat
  deriving DecidableEq, Repr

namespace DocumentError

/-- A step of a path as it is written, `first` saying that nothing stands before it. -/
def stepText (first : Bool) : Json.PathStep → String
  | .item index => "[" ++ toString index ++ "]"
  | .member name => (if first then "" else ".") ++ name
  | .unnamed => if first then "?" else ".?"

/-- A path as it is written: `types[0].values[1]`. -/
def pathText : List Json.PathStep → String
  | [] => "."
  | first :: rest => stepText true first ++ String.join (rest.map (stepText false))

/-- The wording of an error without its place in the text. -/
def message (error : DocumentError) : String :=
  "at JSON path " ++ pathText error.path ++ " → " ++ error.fault.message

/-- The wording of an error. -/
def located (text : String) (error : DocumentError) : String :=
  error.message ++ Json.placeSuffix text error.remaining

end DocumentError

/-! ## Reading a declaration -/

/-- A character of a string as it is written in a description of the string. -/
def describedChar (c : Char) : List Char :=
  if c = '"' then ['\\', '"']
  else if c = '\\' then ['\\', '\\']
  else if c = '\n' then ['\\', 'n']
  else if c = '\r' then ['\\', 'r']
  else if c = '\t' then ['\\', 't']
  else if c = '\x00' then ['\\', '0']
  else if Text.isPrintable c then [c]
  else ['\\', 'u', '\x7b'] ++ Nat.toDigits 16 c.toNat ++ ['\x7d']

/-- How messages describe a value. -/
def Json.described : Json → String
  | null => "null"
  | bool b => "boolean `" ++ (if b then "true" else "false") ++ "`"
  | number (.integer i) => "integer `" ++ intText i ++ "`"
  | number (.double x) => "floating point `" ++ x.text ++ "`"
  | string s => "string \"" ++ String.ofList (s.toList.flatMap describedChar) ++ "\""
  | array _ => "sequence"
  | object _ => "map"

/-- The outcome of reading a part of a document. -/
abbrev Reading (α : Type) := Except DocumentFault α

namespace Reading

/-- Reads a string. -/
def string : Json → Reading String
  | .string text => .ok text
  | value => .error (.invalidType value.described "a string")

/-- Reads a string or null. -/
def string? : Json → Reading (Option String)
  | .null => .ok none
  | value => (string value).map some

/-- Reads an array of strings. -/
def strings : Json → Reading (List String)
  | .array items => items.mapM string
  | value => .error (.invalidType value.described "a sequence")

/-- Reads an object as the list of its members. -/
def pairs {α : Type} (read : Json → Reading α) : Json → Reading (List (String × α))
  | .object members => members.mapM fun (name, value) => (read value).map fun read => (name, read)
  | value => .error (.invalidType value.described "a JSON object")

/-- The member of a given name, which must not be repeated. -/
def unique? (name : String) (members : List (String × Json)) : Reading (Option Json) :=
  match members.filter fun member => member.1 = name with
  | [] => .ok none
  | [member] => .ok (some member.2)
  | _ => .error (.duplicateField name)

end Reading

/-- Reads the full form of a field declaration. -/
def FieldDef.ofMembers (members : List (String × Json)) : Reading FieldDef := do
  let type ← Reading.unique? "type" members
  let description ← Reading.unique? "description" members
  let default? ← Reading.unique? "defaultValue" members
  let typeText ← Reading.string (type.getD .null)
  let description ← Reading.string? (description.getD .null)
  return ⟨typeText, description, (default?.filter fun value => !value.isNull).map Json.merged⟩

/-- Reads a field declaration: a type reference, or an object with the reference, a description and
a default. -/
def FieldDef.ofJson (value : Json) : Reading FieldDef :=
  let read : Reading FieldDef :=
    match value with
    | .string text => .ok { typeText := text }
    | .object members => FieldDef.ofMembers members
    | _ => .error (.noForm "FieldDef")
  read.mapError fun _ => .noForm "FieldDef"

/-- Reads the candidates of a union: an array of names, or an object of names under keys. -/
def CandidateNames.ofJson (value : Json) : Reading CandidateNames :=
  let read : Reading CandidateNames :=
    match value with
    | .array _ => (Reading.strings value).map .byName
    | _ => (Reading.pairs Reading.string value).map .keyed
  read.mapError fun _ => .noForm "InputTypesDef"

/-- The kinds of declarations. -/
inductive DefKind where
  | object
  | enum
  | union
  deriving DecidableEq, Repr

/-- The kind of a given name. -/
def DefKind.ofName? (name : String) : Option DefKind :=
  if name = "object" then some .object
  else if name = "enum" then some .enum
  else if name = "union" then some .union
  else none

/-- What is known of a declaration while its members are read one after the other. -/
structure DefParts where
  name : Option String := none
  description : Option (Option String) := none
  fields : Option (List (String × FieldDef)) := none
  values : Option (List String) := none
  typeKey : Option (Option String) := none
  inputTypes : Option CandidateNames := none

namespace DefParts

/-- Reads a part that must not have been read before. -/
def fresh {α : Type} (name : String) (known : Option α) (value : Json) (read : Json → Reading α) :
    Reading (Option α) :=
  if known.isSome then .error (.duplicateField name) else (read value).map some

/-- Reads one member of a declaration. Members that its kind does not have are ignored. -/
def addMember (kind : DefKind) (parts : DefParts) (member : String × Json) : Reading DefParts :=
  let (name, value) := member
  if name = "name" then
    (fresh name parts.name value Reading.string).map fun x => { parts with name := x }
  else if name = "description" then
    (fresh name parts.description value Reading.string?).map fun x =>
      { parts with description := x }
  else
    match kind with
    | .object =>
      if name = "fields" then
        (fresh name parts.fields value (Reading.pairs FieldDef.ofJson)).map fun x =>
          { parts with fields := x }
      else .ok parts
    | .enum =>
      if name = "values" then
        (fresh name parts.values value Reading.strings).map fun x => { parts with values := x }
      else .ok parts
    | .union =>
      if name = "typeKey" then
        (fresh name parts.typeKey value Reading.string?).map fun x => { parts with typeKey := x }
      else if name = "inputTypes" then
        (fresh name parts.inputTypes value CandidateNames.ofJson).map fun x =>
          { parts with inputTypes := x }
      else .ok parts

/-- A part that a declaration has to have. -/
def required {α : Type} (name : String) : Option α → Reading α
  | some value => .ok value
  | none => .error (.missingField name)

/-- The declaration that the parts make. -/
def finish (kind : DefKind) (parts : DefParts) : Reading TypeDef := do
  let name ← required "name" parts.name
  let description := parts.description.getD none
  match kind with
  | .object => return .object ⟨name, description, ← required "fields" parts.fields⟩
  | .enum => return .enum ⟨name, description, ← required "values" parts.values⟩
  | .union =>
    let inputTypes ← required "inputTypes" parts.inputTypes
    return .union ⟨name, description, parts.typeKey.getD none, inputTypes⟩

end DefParts

namespace TypeDef

/-- Reads a declaration from the members other than its kind, in order. -/
def ofMembers (kind : DefKind) (members : List (String × Json)) : Reading TypeDef :=
  (members.foldlM (DefParts.addMember kind) {}).bind (DefParts.finish kind)

/-- The members of a declaration that may be given by position. -/
def positions : DefKind → List String
  | .object => ["name", "description", "fields"]
  | .enum => ["name", "description", "values"]
  | .union => ["name", "description", "typeKey", "inputTypes"]

/-- How messages call a declaration. -/
def structName : DefKind → String
  | .object => "ObjectDef"
  | .enum => "EnumDef"
  | .union => "UnionDef"

/-- Reads a declaration from the items behind its kind. The last position and the name have to be
given, and nothing may follow. -/
def ofItems (kind : DefKind) (items : List Json) : Reading TypeDef := do
  let names := positions kind
  let expected := "struct " ++ structName kind ++ " with " ++ toString names.length ++ " elements"
  let parts ← (names.zip items).foldlM (DefParts.addMember kind) {}
  if items.isEmpty then throw (.invalidLength 0 expected)
  if items.length < names.length then throw (.invalidLength (names.length - 1) expected)
  if names.length < items.length then
    throw (.invalidLength items.length (toString names.length ++ " elements in sequence"))
  parts.finish kind

end TypeDef

end TaggedUnion
