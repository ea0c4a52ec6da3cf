import TaggedUnion.Literal.Token

/-!
# What is wrong with the text of a literal
-/

namespace TaggedUnion.Literal

/-- The deepest nesting of lists and objects in a literal. -/
def maxDepth : Nat := 128

/-- What may come next in a literal. -/
inductive Expected where
  | value
  /-- The name of a field, or the brace that ends the object. -/
  | fieldName
  | colon
  deriving DecidableEq, Repr

/-- How messages call what may come next. -/
def Expected.describe : Expected → String
  | value => "value"
  | fieldName => "field name or '\x7d'"
  | colon => TokenKind.colon.describe

/-- Why a text is not a literal. -/
inductive SyntaxError where
  | unexpectedToken (found : String) (expected : Expected) (span : Span)
  | unexpectedEnd (expected : Expected) (span : Span)
  | invalidEscape (sequence : String) (span : Span)
  | unrecognized (text : String) (span : Span)
  | trailingInput (span : Span)
  | tooDeep (span : Span)
  deriving DecidableEq, Repr

namespace SyntaxError

/-- Where the fault is. -/
def span : SyntaxError → Span
  | unexpectedToken _ _ span => span
  | unexpectedEnd _ span => span
  | invalidEscape _ span => span
  | unrecognized _ span => span
  | trailingInput span => span
  | tooDeep span => span

/-- A span as it is written in messages. -/
def rangeText (span : Span) : String := toString span.start ++ ".." ++ toString span.stop

/-- The wording of a fault. -/
def message : SyntaxError → String
  | unexpectedToken found expected span =>
    "unexpected token '" ++ found ++ "' at " ++ rangeText span ++ ", expected " ++ expected.describe
  | unexpectedEnd expected span =>
    "unexpected end of input at " ++ toString span.start ++ ", expected " ++ expected.describe
  | invalidEscape sequence span =>
    "invalid escape sequence '" ++ sequence ++ "' at " ++ rangeText span
  | unrecognized text span => "unrecognized token '" ++ text ++ "' at " ++ rangeText span
  | trailingInput span => "unexpected trailing input at " ++ rangeText span
  | tooDeep span =>
    "literal nests deeper than " ++ toString maxDepth ++ " lists or objects at " ++
      toString span.start

end SyntaxError

/-- Why reading a literal stops without a result. -/
inductive Stop where
  | error (error : SyntaxError)
  /-- A bad escape cannot be quoted, because the bytes to quote end inside a character. -/
  | abort
  deriving DecidableEq, Repr

end TaggedUnion.Literal
