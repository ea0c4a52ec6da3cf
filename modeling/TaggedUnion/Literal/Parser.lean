import TaggedUnion.Literal.Lexer
import TaggedUnion.Literal.Node
import TaggedUnion.Literal.Quoted

/-!
# From tokens to a literal

The parser takes one token after the other and keeps the lists and objects that are still open,
innermost first. A literal is `Int`, `Float`, `String`, a name, a list of literals in brackets, or
an object of fields `name : literal` in braces.

* `State.step`: what one token changes.
* `parse`: the literal that a whole text is.
-/

namespace TaggedUnion.Literal

/-- A list or object that is still open. What has been read of it is listed last first. -/
inductive Frame where
  | list (start : Span) (items : List Node)
  /-- An object in which the value of the field `name` comes next. -/
  | object (start : Span) (fields : List Field) (name : Name)

/-- Where the parser stands between two tokens. -/
inductive State where
  /-- A value comes next, or the end of a list. -/
  | value (stack : List Frame)
  /-- In an object, the name of a field or the end comes next. -/
  | name (start : Span) (fields : List Field) (outer : List Frame)
  /-- In an object, the colon behind the name of a field comes next. -/
  | colon (start : Span) (fields : List Field) (name : Name) (outer : List Frame)
  /-- The literal is complete. -/
  | done (node : Node)

namespace State

/-- Puts a complete literal into the innermost open list or object. -/
def complete (node : Node) : List Frame → State
  | [] => done node
  | .list start items :: outer => value (.list start (node :: items) :: outer)
  | .object start fields field :: outer =>
    name start (⟨field, node, field.span.merge node.span⟩ :: fields) outer

/-- The literal that a bare name stands for. -/
def bareName (text : List Char) : Value :=
  if text = ['t', 'r', 'u', 'e'] then .boolean true
  else if text = ['f', 'a', 'l', 's', 'e'] then .boolean false
  else if text = ['n', 'u', 'l', 'l'] then .null
  else .enum (String.ofList text)

/-- Refuses a token. -/
def unexpected (token : Token) (expected : Expected) : Except Stop State :=
  .error (.error (.unexpectedToken (String.ofList token.text) expected token.span))

/-- Opens a list or object, unless too many are open. -/
def opening (stack : List Frame) (token : Token) (opened : State) : Except Stop State :=
  if stack.length < maxDepth then .ok opened else .error (.error (.tooDeep token.span))

/-- What a token does where a value comes next. -/
def stepValue (stack : List Frame) (token : Token) : Except Stop State :=
  match token.kind with
  | .braceOpen => opening stack token (name token.span [] stack)
  | .bracketOpen => opening stack token (value (.list token.span [] :: stack))
  | .bracketClose =>
    match stack with
    | .list start items :: outer =>
      .ok (complete ⟨.list items.reverse, start.merge token.span⟩ outer)
    | _ => unexpected token .value
  | .int => .ok (complete ⟨.int (String.ofList token.text), token.span⟩ stack)
  | .float => .ok (complete ⟨.float (String.ofList token.text), token.span⟩ stack)
  | .string => token.contents.map fun text => complete ⟨.string text, token.span⟩ stack
  | .name => .ok (complete ⟨bareName token.text, token.span⟩ stack)
  | .braceClose => unexpected token .value
  | .colon => unexpected token .value

/-- What a token does. -/
def step : State → Token → Except Stop State
  | value stack, token => stepValue stack token
  | name start fields outer, token =>
    match token.kind with
    | .braceClose => .ok (complete ⟨.object fields.reverse, start.merge token.span⟩ outer)
    | .name => .ok (colon start fields ⟨String.ofList token.text, token.span⟩ outer)
    | _ => unexpected token .fieldName
  | colon start fields field outer, token =>
    if token.kind = .colon then .ok (value (.object start fields field :: outer))
    else unexpected token .colon
  | done _, token => .error (.error (.trailingInput token.span))

/-- The literal that has been read when the text ends at `stop`. -/
def finish (stop : Nat) : State → Except Stop Node
  | value _ => .error (.error (.unexpectedEnd .value (.point stop)))
  | name .. => .error (.error (.unexpectedEnd .fieldName (.point stop)))
  | colon .. => .error (.error (.unexpectedEnd .colon (.point stop)))
  | done node => .ok node

end State

/-- The literal that the tokens of a text are, the text being `size` bytes long. -/
def parseTokens (size : Nat) (tokens : List Token) : Except Stop Node :=
  (tokens.foldlM State.step (.value [])).bind (State.finish size)

/-- The literal that a whole text is. The text is split into tokens first, so a fault of a token
comes before any other. -/
def parse (text : String) : Except Stop Node :=
  match tokenize text with
  | .error error => .error (.error error)
  | .ok tokens => parseTokens (Text.byteSize text.toList) tokens

end TaggedUnion.Literal
