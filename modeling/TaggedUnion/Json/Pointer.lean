import TaggedUnion.Json.Basic
import TaggedUnion.Text.Split

/-!
# JSON pointers

A pointer selects a part of a value, as in RFC 6901: the empty text selects the whole, otherwise
each token after a `/` names a member or counts an item, with `~1` for `/` and `~0` for `~`.
-/

namespace TaggedUnion.Json.Pointer

/-- The tokens of a pointer, which has to be empty or to start with a slash. -/
def tokens? : List Char → Option (List (List Char))
  | [] => some []
  | c :: rest => if c = '/' then some (Text.split '/' rest) else none

/-- The name that a token stands for. Each `~1` is replaced first, then each `~0`. -/
def unescape (token : List Char) : List Char := tildes (slashes token)
where
  /-- Replaces `~1` by a slash. -/
  slashes : List Char → List Char
    | '~' :: '1' :: rest => '/' :: slashes rest
    | c :: rest => c :: slashes rest
    | [] => []
  /-- Replaces `~0` by a tilde. -/
  tildes : List Char → List Char
    | '~' :: '0' :: rest => '~' :: tildes rest
    | c :: rest => c :: tildes rest
    | [] => []

/-- The index that a token stands for: decimal digits without sign and without a zero in front. -/
def index? (token : List Char) : Option Nat :=
  match token with
  | [] => none
  | ['0'] => some 0
  | '0' :: _ => none
  | _ =>
    if token.all Char.isDigit then
      some (token.foldl (fun n c => 10 * n + (c.toNat - '0'.toNat)) 0)
    else none

/-- The part that a token selects. -/
def step? (value : Json) (token : List Char) : Option Json :=
  let token := unescape token
  match value with
  | .object members => members.lookup (String.ofList token)
  | .array items => (index? token).bind fun i => items[i]?
  | _ => none

/-- The part of a value that a pointer selects. -/
def select? (pointer : String) (value : Json) : Option Json :=
  (tokens? pointer.toList).bind fun tokens => tokens.foldlM step? value

end TaggedUnion.Json.Pointer
