import TaggedUnion.Text.Span

/-!
# Tokens of a literal
-/

namespace TaggedUnion.Literal

/-- The kinds of tokens. -/
inductive TokenKind where
  | braceOpen
  | braceClose
  | bracketOpen
  | bracketClose
  | colon
  | name
  | int
  | float
  /-- A quoted string, its quotes included and its escapes not yet decoded. -/
  | string
  deriving DecidableEq, Repr

/-- How messages call a kind of token. -/
def TokenKind.describe : TokenKind → String
  | braceOpen => "'\x7b'"
  | braceClose => "'\x7d'"
  | bracketOpen => "'['"
  | bracketClose => "']'"
  | colon => "':'"
  | name => "name"
  | int => "int"
  | float => "float"
  | string => "string"

/-- A token: its kind, where it stands and its characters. -/
structure Token where
  kind : TokenKind
  span : Span
  text : List Char
  deriving DecidableEq, Repr

end TaggedUnion.Literal
