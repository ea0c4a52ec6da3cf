import TaggedUnion.Text.Span

/-!
# What is wrong with a JSON text

A `SyntaxError` is a cause, and a `Fault` is a cause with the place where it was found: how many
bytes of the text were left, and on which member or item of which container the reader was.
-/

namespace TaggedUnion.Json

/-- Why a text is not a JSON value. -/
inductive SyntaxError where
  /-- The text ends inside an array. -/
  | endInArray
  /-- The text ends inside an object. -/
  | endInObject
  /-- The text ends inside a string. -/
  | endInString
  /-- The text ends where a value, or more of one, has to come. -/
  | endInValue
  | expectedColon
  | expectedCommaOrBracket
  | expectedCommaOrBrace
  /-- Letters that start like `null`, `true` or `false` and go on otherwise. -/
  | expectedKeyword
  | expectedValue
  | invalidEscape
  | invalidNumber
  | numberOutOfRange
  | controlCharacter
  | nameNotString
  | loneSurrogate
  /-- The first half of a surrogate pair without an escape behind it. -/
  | unfinishedPair
  | trailingComma
  | trailingCharacters
  | tooDeep
  deriving DecidableEq, Repr

/-- The wording of a cause. -/
def SyntaxError.message : SyntaxError → String
  | endInArray => "EOF while parsing a list"
  | endInObject => "EOF while parsing an object"
  | endInString => "EOF while parsing a string"
  | endInValue => "EOF while parsing a value"
  | expectedColon => "expected `:`"
  | expectedCommaOrBracket => "expected `,` or `]`"
  | expectedCommaOrBrace => "expected `,` or `\x7d`"
  | expectedKeyword => "expected ident"
  | expectedValue => "expected value"
  | invalidEscape => "invalid escape"
  | invalidNumber => "invalid number"
  | numberOutOfRange => "number out of range"
  | controlCharacter => "control character (\\u0000-\\u001F) found while parsing a string"
  | nameNotString => "key must be a string"
  | loneSurrogate => "lone leading surrogate in hex escape"
  | unfinishedPair => "unexpected end of hex escape"
  | trailingComma => "trailing comma"
  | trailingCharacters => "trailing characters"
  | tooDeep => "recursion limit exceeded"

/-- One step from a container to a part of it. -/
inductive PathStep where
  | item (index : Nat)
  | member (name : String)
  /-- A member whose name could not be read. -/
  | unnamed
  deriving DecidableEq, Repr

/-- A cause with its place: the number of bytes left of the text, and the path to the part that was
being read. -/
structure Fault where
  cause : SyntaxError
  remaining : Nat
  path : List PathStep := []
  deriving DecidableEq, Repr

namespace Fault

/-- A fault found with `rest` still to be read. -/
def before (cause : SyntaxError) (rest : List Char) : Fault :=
  { cause, remaining := Text.byteSize rest }

/-- A fault of the first byte of `rest`, which counts as read; at the end of the text there is
nothing to count. -/
def on (cause : SyntaxError) (rest : List Char) : Fault :=
  { cause, remaining := Text.byteSize rest - 1 }

/-- The fault seen from an outer container. -/
def under (steps : List PathStep) (fault : Fault) : Fault :=
  { fault with path := steps ++ fault.path }

end Fault

/-- Line from one and column from zero of the place with `remaining` bytes behind it. -/
def lineColumn (text : String) (remaining : Nat) : Nat × Nat :=
  let (line, column) := (Source.mk "" text).lineCol (Text.byteSize text.toList - remaining)
  (line, column - 1)

/-- How a place is written after a message. -/
def placeSuffix (text : String) (remaining : Nat) : String :=
  let (line, column) := lineColumn text remaining
  " at line " ++ toString line ++ " column " ++ toString column

/-- The message of a fault with its place. -/
def Fault.located (text : String) (fault : Fault) : String :=
  fault.cause.message ++ placeSuffix text fault.remaining

end TaggedUnion.Json
