/-!
# Byte positions in a text

A position in a text is the number of UTF-8 bytes before it, a `Span` is a range of such positions,
and a `Source` is a named text that can be quoted by span and addressed by line and column.

* `Source.slice`: the text that a span covers; empty unless both ends fall between characters.
* `Source.lineCol`: line and column of a position, both counted from one, columns in bytes.
-/

namespace TaggedUnion

/-- A range of byte positions, the end exclusive. -/
structure Span where
  start : Nat
  stop : Nat
  deriving DecidableEq, Repr, Inhabited

namespace Span

/-- The smallest span that covers both. -/
def merge (a b : Span) : Span := ⟨min a.start b.start, max a.stop b.stop⟩

/-- The empty span at a position. -/
def point (position : Nat) : Span := ⟨position, position⟩

end Span

namespace Text

/-- Number of bytes of the UTF-8 form. -/
def byteSize : List Char → Nat
  | [] => 0
  | c :: cs => c.utf8Size + byteSize cs

@[simp] theorem byteSize_append (a b : List Char) :
    byteSize (a ++ b) = byteSize a + byteSize b := by
  induction a with
  | nil => simp [byteSize]
  | cons c cs ih => simp [byteSize, ih, Nat.add_assoc]

/-- What is left after the first `n` bytes; nothing unless `n` is the size of some first
characters. -/
def dropBytes? (n : Nat) : List Char → Option (List Char)
  | [] => if n = 0 then some [] else none
  | c :: cs =>
    if n = 0 then some (c :: cs)
    else if c.utf8Size ≤ n then dropBytes? (n - c.utf8Size) cs
    else none

/-- The characters of the first `n` bytes; nothing unless `n` is the size of some first
characters. -/
def takeBytes? (n : Nat) : List Char → Option (List Char)
  | [] => if n = 0 then some [] else none
  | c :: cs =>
    if n = 0 then some []
    else if c.utf8Size ≤ n then (takeBytes? (n - c.utf8Size) cs).map (c :: ·)
    else none

/-- The characters of a span, if both of its ends fall between characters. -/
def slice? (span : Span) (cs : List Char) : Option (List Char) :=
  (dropBytes? span.start cs).bind (takeBytes? (span.stop - span.start))

/-- The positions at which the lines after the first one start, for a text that itself starts at
`position`. -/
def lineStarts (position : Nat) : List Char → List Nat
  | [] => []
  | c :: cs =>
    let next := position + c.utf8Size
    if c = '\n' then next :: lineStarts next cs else lineStarts next cs

end Text

/-- A text with the name it is reported under. -/
structure Source where
  name : String
  body : String
  deriving DecidableEq, Repr

namespace Source

/-- The text that a span covers; empty when an end of the span is out of range or inside a
character. -/
def slice (source : Source) (span : Span) : String :=
  String.ofList ((Text.slice? span source.body.toList).getD [])

/-- Line and column of a byte position, both from one. A position past the end counts as the end,
and only a newline ends a line. -/
def lineCol (source : Source) (position : Nat) : Nat × Nat :=
  let cs := source.body.toList
  let position := min position (Text.byteSize cs)
  let starts := (Text.lineStarts 0 cs).filter (· ≤ position)
  (starts.length + 1, position - starts.getLast?.getD 0 + 1)

end Source

end TaggedUnion
