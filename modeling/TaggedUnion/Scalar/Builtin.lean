import TaggedUnion.Decimal.Numeral
import TaggedUnion.Json.Printer
import TaggedUnion.Union.Error

/-!
# The built-in scalars

What `String`, `Int`, `Float`, `Boolean` and `ID` accept as runtime values and as literals, and what
they make of it.

* `String` and `Boolean` take strings and booleans as they are.
* `Int` takes the integers of 32 bits with a sign, also when a runtime value holds one as a double.
* `Float` takes every number. A literal becomes the nearest double, which has to be finite.
* `ID` takes strings and integers and makes strings of them.
-/

namespace TaggedUnion

/-- Why a scalar refuses a runtime value or a literal. `shown` is its text. -/
inductive ScalarError where
  /-- Not of the kind that the scalar is named for. -/
  | mismatch (scalar : Builtin) (shown : String)
  | notInteger (shown : String)
  | notInt32 (shown : String)
  | notNumeric (shown : String)
  | notIdentifier (shown : String)
  | notIdentifierLiteral (shown : String)
  /-- The scalar is a union, and the union refuses. -/
  | union (error : UnionError)
  deriving DecidableEq, Repr

/-- How messages call the values that a built-in scalar is named for. -/
def Builtin.noun : Builtin → String
  | .string => "string"
  | .int => "int"
  | .float => "float"
  | .boolean => "boolean"
  | .id => "id"

/-- The wording of an error. -/
def ScalarError.message : ScalarError → String
  | mismatch scalar shown =>
    scalar.name ++ " cannot represent a non " ++ scalar.noun ++ " value: " ++ shown
  | notInteger shown => "Int cannot represent non-integer value: " ++ shown
  | notInt32 shown => "Int cannot represent non 32-bit signed integer value: " ++ shown
  | notNumeric shown => "Float cannot represent non numeric value: " ++ shown
  | notIdentifier shown => "ID cannot represent value: " ++ shown
  | notIdentifierLiteral shown =>
    "ID cannot represent a non-string and non-integer value: " ++ shown
  | union error => error.message

namespace Builtin

/-- Whether an integer has 32 bits, one of them for the sign. -/
def isInt32 (i : Int) : Bool := -2147483648 ≤ i ∧ i ≤ 2147483647

/-- The cast of a double to an integer of 32 bits. It cuts off the fraction, and what is beyond the
integers of 32 bits becomes the nearest of them. -/
def int32OfDouble (x : Binary64) : Int := max (-2147483648) (min 2147483647 x.truncate)

/-- The cast of a double that has no fraction and is in range. -/
def int32OfDouble? (x : Binary64) : Option Int :=
  let least : Binary64 := ⟨true, 2147483648, 0⟩
  let greatest : Binary64 := ⟨false, 2147483647, 0⟩
  if x.isWhole && least.le x && x.le greatest then some (int32OfDouble x) else none

/-- The integer of 32 bits in a number. One that is not held as a signed word of 64 bits is looked
at as a double. -/
def int32? (n : Number) : Option Int :=
  match n.int64? with
  | some i => if isInt32 i then some i else none
  | none => n.toDouble?.bind int32OfDouble?

/-- What `Int` makes of a number. -/
def intOfNumber (n : Number) : Except ScalarError Json :=
  match int32? n, n with
  | some i, _ => .ok (.number (.integer i))
  | none, .integer _ => .error (.notInt32 n.text)
  | none, .double _ => .error (.notInteger n.text)

/-- What a built-in scalar makes of a runtime value. -/
def parseValue (value : Json) : Builtin → Except ScalarError Json
  | string =>
    match value with
    | .string _ => .ok value
    | _ => .error (.mismatch .string value.compact)
  | int =>
    match value with
    | .number n => intOfNumber n
    | _ => .error (.notInteger value.compact)
  | float =>
    match value with
    | .number _ => .ok value
    | _ => .error (.notNumeric value.compact)
  | boolean =>
    match value with
    | .bool _ => .ok value
    | _ => .error (.mismatch .boolean value.compact)
  | id =>
    match value with
    | .string _ => .ok value
    | .number (.integer i) => .ok (.string (intText i))
    | _ => .error (.notIdentifier value.compact)

/-- The numeral that a whole text is. -/
def numeral? (text : String) : Option Numeral :=
  match Numeral.scan text.toList with
  | some (n, []) => some n
  | _ => none

/-- What `Int` makes of the spelling of an integer literal. -/
def intOfSpelling (text : String) : Except ScalarError Json :=
  match (numeral? text).filter Numeral.isInteger with
  | some n =>
    if isInt32 n.wholeValue then .ok (.number (.integer n.wholeValue)) else .error (.notInt32 text)
  | none => .error (.notInt32 text)

/-- What `Float` makes of the spelling of a number literal. -/
def floatOfSpelling (text : String) : Except ScalarError Json :=
  match numeral? text with
  | none => .error (.notNumeric text)
  | some n =>
    match n.nearest? with
    | some x => .ok (.number (.double x))
    | none => .error (.notNumeric (if n.negative then "-inf" else "inf"))

/-- What a built-in scalar makes of a literal. Its text in the source is quoted when it is
refused. -/
def parseLiteral (source : Source) (node : Literal.Node) : Builtin → Except ScalarError Json
  | string =>
    match node.value with
    | .string contents => .ok (.string contents)
    | _ => .error (.mismatch .string (source.slice node.span))
  | int =>
    match node.value with
    | .int text => intOfSpelling text
    | _ => .error (.mismatch .int (source.slice node.span))
  | float =>
    match node.value with
    | .int text => floatOfSpelling text
    | .float text => floatOfSpelling text
    | _ => .error (.mismatch .float (source.slice node.span))
  | boolean =>
    match node.value with
    | .boolean b => .ok (.bool b)
    | _ => .error (.mismatch .boolean (source.slice node.span))
  | id =>
    match node.value with
    | .string contents => .ok (.string contents)
    | .int text => .ok (.string text)
    | _ => .error (.notIdentifierLiteral (source.slice node.span))

end Builtin

end TaggedUnion
