import TaggedUnion.Decimal.Shortest
import TaggedUnion.Json.Basic

/-!
# JSON text

* `Json.compact`: the text without any blank.
* `Json.pretty`: the text with one item or member a line, indented by two spaces a level.
* `Number.text`: the text of a number, which both use. A double has the digits of its shortest
  decimal, written positionally and always with a fraction while the exponent of its first digit
  is between `-5` and `15`, and in the form `1.5e+16` otherwise.
-/

namespace TaggedUnion

namespace Decimal

/-- The least exponent of the first digit at which a double is written positionally. -/
def minPositional : Int := -5

/-- The greatest exponent of the first digit at which a double is written positionally. -/
def maxPositional : Int := 15

/-- Digits with a decimal point after the digit for the units, `exponent` being that of the first
digit. There is always a digit on both sides of the point. -/
def positional (digits : List Char) (exponent : Int) : List Char :=
  if exponent < 0 then
    '0' :: '.' :: (List.replicate (-exponent - 1).toNat '0' ++ digits)
  else
    let whole := exponent.toNat + 1
    let fraction := digits.drop whole
    digits.take whole ++ List.replicate (whole - digits.length) '0' ++
      '.' :: (if fraction.isEmpty then ['0'] else fraction)

/-- The first digit, the others after a point, and the exponent with its sign. -/
def scientific (digits : List Char) (exponent : Int) : List Char :=
  let fraction := digits.drop 1
  digits.take 1 ++ (if fraction.isEmpty then [] else '.' :: fraction) ++
    'e' :: (if exponent < 0 then '-' else '+') :: Decimal.digits exponent.natAbs

/-- The text of a decimal: positional in the range of `minPositional` and `maxPositional`. -/
def text (d : Decimal) : List Char :=
  let digits := Decimal.digits d.coefficient
  let exponent := d.exponent + digits.length - 1
  if minPositional ≤ exponent ∧ exponent ≤ maxPositional then positional digits exponent
  else scientific digits exponent

end Decimal

/-- The text of an integer: its digits, after a minus sign when it is negative. -/
def intText (i : Int) : String :=
  String.ofList ((if i < 0 then ['-'] else []) ++ Decimal.digits i.natAbs)

/-- The text of a double. The sign of a zero is kept. -/
def Binary64.text (x : Binary64) : String :=
  String.ofList ((if x.negative then ['-'] else []) ++ x.shortest.text)

/-- The text of a number. -/
def Number.text : Number → String
  | integer value => intText value
  | double value => value.text

namespace Json

/-- The digit of a value below sixteen, in lower case. -/
def hexDigit (n : Nat) : Char := Nat.digitChar n

/-- How a character is written between quotes. -/
def escaped (c : Char) : List Char :=
  if c = '"' then ['\\', '"']
  else if c = '\\' then ['\\', '\\']
  else if c = '\n' then ['\\', 'n']
  else if c = '\r' then ['\\', 'r']
  else if c = '\t' then ['\\', 't']
  else if c = '\x08' then ['\\', 'b']
  else if c = '\x0c' then ['\\', 'f']
  else if c.toNat < 32 then
    ['\\', 'u', '0', '0', hexDigit (c.toNat / 16), hexDigit (c.toNat % 16)]
  else [c]

/-- A string between quotes. -/
def quoted (text : String) : String :=
  String.ofList ('"' :: text.toList.flatMap escaped ++ ['"'])

mutual

/-- The text of a value without any blank. -/
def compact : Json → String
  | null => "null"
  | bool value => if value then "true" else "false"
  | number value => value.text
  | string value => quoted value
  | array items => "[" ++ compactItems items ++ "]"
  | object members => "\x7b" ++ compactMembers members ++ "\x7d"

/-- The texts of items, a comma between two. -/
def compactItems : List Json → String
  | [] => ""
  | [item] => item.compact
  | item :: items => item.compact ++ "," ++ compactItems items

/-- The texts of members, a comma between two. -/
def compactMembers : List (String × Json) → String
  | [] => ""
  | [(name, value)] => quoted name ++ ":" ++ value.compact
  | (name, value) :: rest => quoted name ++ ":" ++ value.compact ++ "," ++ compactMembers rest

end

/-- The start of a line at a level of indentation. -/
def lineAt (level : Nat) : String := "\n" ++ String.ofList (List.replicate (2 * level) ' ')

mutual

/-- The text of a value at a level of indentation. -/
def prettyAt (level : Nat) : Json → String
  | array [] => "[]"
  | array (item :: items) => "[" ++ prettyItems (level + 1) (item :: items) ++ lineAt level ++ "]"
  | object [] => "\x7b\x7d"
  | object (member :: members) =>
    "\x7b" ++ prettyMembers (level + 1) (member :: members) ++ lineAt level ++ "\x7d"
  | null => "null"
  | bool value => if value then "true" else "false"
  | number value => value.text
  | string value => quoted value

/-- The texts of items, each on a line of its own. -/
def prettyItems (level : Nat) : List Json → String
  | [] => ""
  | [item] => lineAt level ++ item.prettyAt level
  | item :: items => lineAt level ++ item.prettyAt level ++ "," ++ prettyItems level items

/-- The texts of members, each on a line of its own. -/
def prettyMembers (level : Nat) : List (String × Json) → String
  | [] => ""
  | [(name, value)] => lineAt level ++ quoted name ++ ": " ++ value.prettyAt level
  | (name, value) :: rest =>
    lineAt level ++ quoted name ++ ": " ++ value.prettyAt level ++ "," ++ prettyMembers level rest

end

/-- The text of a value with one item or member a line. -/
def pretty (value : Json) : String := value.prettyAt 0

end Json

end TaggedUnion
