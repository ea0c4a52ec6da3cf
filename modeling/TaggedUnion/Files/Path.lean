import TaggedUnion.Text.Split

/-!
# Paths of files

A path is a text of segments between slashes. Empty segments and dots say nothing about the place,
except for an empty first segment, which makes the path absolute. Paths keep the text that they were
given, because reports quote it.
-/

namespace TaggedUnion.Path

/-- The segments of a path. -/
def segments (path : String) : List String := (Text.split '/' path.toList).map String.ofList

/-- The path with the given segments. -/
def ofSegments (segments : List String) : String := "/".intercalate segments

/-- Whether a segment stays where it is. -/
def isIdle (segment : String) : Bool := segment = "" || segment = "."

/-- Whether the path starts at the root of all files. -/
def isAbsolute (path : String) : Bool := path.toList.head? = some '/'

/-- Whether the path is a way to write the working directory. -/
def isCurrent (path : String) : Bool := path.toList.head? = some '.' && (segments path).all isIdle

/-- A path one segment further. -/
def join (path name : String) : String :=
  if path = "" ∨ path.toList.getLast? = some '/' then path ++ name else path ++ "/" ++ name

/-- Without idle segments at the end. A dot in front is kept. -/
def trimIdle (segments : List String) : List String :=
  match segments with
  | [] => []
  | first :: rest => first :: (rest.reverse.dropWhile isIdle).reverse

/-- The path without its last segment that is not idle; empty if there is only one. The root has no
parent. -/
def parent? (path : String) : Option String :=
  match trimIdle (segments path) with
  | [] => none
  | [""] => none
  | [_] => some ""
  | found =>
    match trimIdle found.dropLast with
    | [""] => some "/"
    | outer => some (ofSegments outer)

example : parent? "x/y/out.json" = some "x/y" ∧ parent? "out.json" = some "" ∧
    parent? "/out.json" = some "/" ∧ parent? "./out.json" = some "." ∧
    parent? "d//o/." = some "d" := by
  decide +kernel

end TaggedUnion.Path
