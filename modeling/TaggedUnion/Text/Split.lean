/-!
# Splitting a text

* `split`: the pieces between the occurrences of a character.
* `lines`: the lines of a text. Only a newline ends a line, together with one carriage return before
  it, and nothing follows the last newline.
-/

namespace TaggedUnion.Text

/-- The pieces between the occurrences of a character. There is always at least one piece. -/
def split (separator : Char) : List Char → List (List Char)
  | [] => [[]]
  | c :: cs =>
    if c = separator then [] :: split separator cs
    else
      match split separator cs with
      | [] => [[c]]
      | piece :: pieces => (c :: piece) :: pieces

/-- Without one carriage return at the end. -/
def dropReturn (line : List Char) : List Char :=
  if line.getLast? = some '\r' then line.dropLast else line

/-- The lines of a text. -/
def lines (cs : List Char) : List (List Char) :=
  let pieces := split '\n' cs
  let unended := pieces.getLast?.getD []
  pieces.dropLast.map dropReturn ++ (if unended.isEmpty then [] else [unended])

example : lines ['a', '\r', '\n', '\n', 'b'] = [['a'], [], ['b']] := by decide

end TaggedUnion.Text
