import TaggedUnion.Coercion.Literal
import TaggedUnion.Command.Basic
import TaggedUnion.Json.Pointer
import TaggedUnion.Json.Reader
import TaggedUnion.Literal.Parser
import TaggedUnion.Text.Blank

/-!
# Reports

A report lists what a union makes of each input, one entry after the other: the value that it
accepts, or why it refuses. The inputs of a file are its value, or the values of its lines that are
not blank, counted from zero; a literal file is one input.

* `valueInputs`, `literalInputs`: the inputs of files and texts.
* `check`: the entry of an input.
* `reportOf`, `noticeOf`: the report as JSON, and the notice of what has been refused.
-/

namespace TaggedUnion.Command

/-- What an input holds. -/
inductive Body where
  | value (value : Json)
  | literal (text : String)
  /-- A value that could not be read or selected, with the reason. -/
  | broken (message : String)
  deriving Repr

/-- An input: where it comes from, and its number there. -/
structure Input where
  source : String
  index : Nat
  body : Body
  deriving Repr

/-- Why an input is refused. -/
structure Rejection where
  kind : String
  message : String
  deriving DecidableEq, Repr

/-- The outcome for one input. -/
structure Entry where
  source : String
  index : Nat
  outcome : Except Rejection Json

/-! ## Inputs -/

/-- The part of a value that is checked. -/
def selected (pointer : Option String) (value : Json) : Body :=
  match pointer with
  | none => .value value
  | some pointer =>
    match Json.Pointer.select? pointer value with
    | some part => .value part
    | none => .broken ("JSON pointer " ++ pointer ++ " selects nothing")

/-- What the text of a value holds. -/
def valueBody (pointer : Option String) (text : String) : Body :=
  match Json.parse text with
  | .ok value => selected pointer value
  | .error fault => .broken (fault.located text)

/-- The texts of the values in a file. Lines of blanks hold none. -/
def valueTexts (layout : ValueLayout) (text : String) : List String :=
  if layout.byLine then
    ((Text.lines text.toList).filter fun line => !line.all Text.isBlank).map String.ofList
  else [text]

/-- Inputs from one source, numbered from zero. -/
def numbered (source : String) (bodies : List Body) : List Input :=
  bodies.mapIdx fun index body => ⟨source, index, body⟩

/-- The inputs of value files, given with their paths. -/
def valueInputs (layout : ValueLayout) (files : List (String × String)) : List Input :=
  files.flatMap fun (path, text) =>
    numbered path ((valueTexts layout text).map (valueBody layout.pointer))

/-- The inputs of literal files, given with their paths. -/
def literalInputs (files : List (String × String)) : List Input :=
  files.flatMap fun (path, text) => numbered path [.literal text]

/-- The source of literals that are not from a file. -/
def textSource : String := "<expr>"

/-- The inputs of literals given as they are. -/
def textInputs (texts : List String) : List Input := numbered textSource (texts.map .literal)

/-! ## Entries -/

/-- The rejection by a union. -/
def Rejection.ofUnion (error : UnionError) : Rejection := ⟨error.kind, error.message⟩

/-- The rejection of a text that is not a literal, with line and column. -/
def Rejection.ofSyntax (source : Source) (error : Literal.SyntaxError) : Rejection :=
  let (line, column) := source.lineCol error.span.start
  ⟨"LiteralSyntax", source.name ++ ":" ++ toString line ++ ":" ++ toString column ++ ": " ++
    error.message⟩

/-- What a union makes of the text of a literal. -/
def literalOutcome (registry : Registry) (union : UnionType) (source : Source) :
    Except Failure (Except Rejection Json) :=
  match Literal.parse source.body with
  | .error .abort => .error .aborted
  | .error (.error error) => .ok (.error (.ofSyntax source error))
  | .ok node => .ok ((union.parseLiteral registry source node).mapError .ofUnion)

/-- What a union makes of an input. -/
def outcomeOf (registry : Registry) (union : UnionType) (input : Input) :
    Except Failure (Except Rejection Json) :=
  match input.body with
  | .value value => .ok ((union.parseValue registry value).mapError .ofUnion)
  | .literal text => literalOutcome registry union ⟨input.source, text⟩
  | .broken message => .ok (.error ⟨"InvalidDocument", message⟩)

/-- The entry of an input. -/
def check (registry : Registry) (union : UnionType) (input : Input) : Except Failure Entry :=
  (outcomeOf registry union input).map fun outcome => ⟨input.source, input.index, outcome⟩

/-! ## Writing -/

namespace Entry

/-- The rejection, if the input is refused. -/
def rejection? (entry : Entry) : Option Rejection :=
  match entry.outcome with
  | .ok _ => none
  | .error rejection => some rejection

/-- Whether the input is accepted. -/
def isAccepted (entry : Entry) : Bool := entry.rejection?.isNone

/-- What the report says of the outcome. -/
def verdict (entry : Entry) : List (String × Json) :=
  match entry.outcome with
  | .ok value => [("ok", .bool true), ("value", value)]
  | .error rejection =>
    [("ok", .bool false),
      ("error", .object [("kind", .string rejection.kind), ("message", .string rejection.message)])]

/-- The entry as JSON. -/
def json (entry : Entry) : Json :=
  .object ([("source", .string entry.source), ("index", .number (.integer entry.index))] ++
    entry.verdict)

/-- The line about a refused input. -/
def rejectionLine? (entry : Entry) : Option String :=
  entry.rejection?.map fun rejection =>
    "rejected " ++ entry.source ++ "#" ++ toString entry.index ++ " " ++ rejection.kind ++ ": " ++
      rejection.message

end Entry

/-- The report on all inputs. -/
def reportOf (entries : List Entry) : Json := .array (entries.map Entry.json)

/-- The last line of a notice: how many inputs were accepted and refused. -/
def countLine (unionName : String) (entries : List Entry) : String :=
  let accepted := (entries.filter Entry.isAccepted).length
  unionName ++ ": " ++ toString accepted ++ " accepted, " ++ toString (entries.length - accepted) ++
    " rejected"

/-- The notice on all inputs: a line for each one that is refused, and the counts. -/
def noticeOf (unionName : String) (entries : List Entry) : String :=
  let lines := entries.filterMap Entry.rejectionLine? ++ [countLine unionName entries]
  String.join (lines.map fun line => line ++ "\n")

end TaggedUnion.Command
