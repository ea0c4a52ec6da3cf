import TaggedUnion.Command.Report
import TaggedUnion.Files.Path
import TaggedUnion.Glob.Search
import TaggedUnion.Schema.Build
import TaggedUnion.Schema.Reader

/-!
# Running commands

`Invocation.run` reads what a command needs, makes the report and puts it out. A command that fails
puts out nothing. Files are read in order, all of them before anything is checked.
-/

namespace TaggedUnion.Command

/-- What a completed command leaves: the texts for its two outputs, and whether every input was
accepted. -/
structure Completion where
  output : String
  notice : String
  isAccepted : Bool
  deriving DecidableEq, Repr

/-- The exit status of a completed command. -/
def Completion.exitCode (completion : Completion) : Nat := if completion.isAccepted then 0 else 1

/-- The schema of a document. -/
def schemaOf (path text : String) : Except Failure Schema :=
  match Document.read text with
  | .error error => .error (.malformedSchema path text error)
  | .ok document => document.build.mapError (.unsoundSchema path)

/-- The union that a target names. -/
def unionOf (schema : Schema) (target : Target) : Except Failure UnionType :=
  match schema.union? target.unionName with
  | some union => .ok union
  | none => .error (.notAUnion target (schema.unions.map UnionType.name))

variable {m : Type → Type} [Monad m]

/-- Reads a schema. -/
def readSchema (disk : Disk m) (path : String) : ExceptT Failure m Schema := do
  match ← disk.read path with
  | .error error => throw (.unreadableSchema path error)
  | .ok text => liftExcept (schemaOf path text)

/-- The paths that a pattern stands for. A text without special characters is a path itself. -/
def pathsOf (disk : Disk m) (pattern : String) : ExceptT Failure m (List String) := do
  if !Glob.Pattern.isWritten pattern then return [pattern]
  match Glob.Pattern.parse pattern with
  | .error error => throw (.badPattern error)
  | .ok parsed =>
    let paths ← (parsed.search disk : m (List String))
    if paths.isEmpty then throw (.noMatch pattern) else return paths

/-- Reads the files that patterns stand for. -/
def readFiles (disk : Disk m) (patterns : List String) :
    ExceptT Failure m (List (String × String)) := do
  let paths := (← patterns.mapM (pathsOf disk)).flatten
  paths.mapM fun path => do
    match ← disk.read path with
    | .error error => throw (.unreadableInput path error)
    | .ok text => return (path, text)

/-- Puts out a report: to a file, of which missing directories are created, or as text and a
newline. -/
def putOut (disk : Disk m) (reportPath : Option String) (report : Json) :
    ExceptT Failure m String := do
  match reportPath with
  | none => return report.pretty ++ "\n"
  | some path =>
    if let some directory := Path.parent? path then
      if let .error error ← disk.createDirectories directory then
        throw (.directoryNotCreated directory error)
    if let .error error ← disk.write path report.pretty then throw (.reportNotWritten path error)
    return ""

/-- Checks inputs against a union and reports on them. -/
def checkAll (disk : Disk m) (reportPath : Option String) (schema : Schema) (union : UnionType)
    (inputs : List Input) : ExceptT Failure m Completion := do
  let entries ← liftExcept (inputs.mapM (check schema.registry union))
  let output ← putOut disk reportPath (reportOf entries)
  return ⟨output, noticeOf union.name entries, entries.all Entry.isAccepted⟩

/-- The inputs that literals are given with. -/
def literalInputsOf (disk : Disk m) : LiteralInput → ExceptT Failure m (List Input)
  | .texts texts => return textInputs texts
  | .files patterns => return literalInputs (← readFiles disk patterns)

/-- Runs a command. -/
def Invocation.run (disk : Disk m) (invocation : Invocation) : ExceptT Failure m Completion := do
  match invocation.request with
  | .checkValues target layout patterns =>
    let schema ← readSchema disk target.schemaPath
    let union ← liftExcept (unionOf schema target)
    let inputs := valueInputs layout (← readFiles disk patterns)
    checkAll disk invocation.reportPath schema union inputs
  | .checkLiterals target input =>
    let schema ← readSchema disk target.schemaPath
    let union ← liftExcept (unionOf schema target)
    let inputs ← literalInputsOf disk input
    checkAll disk invocation.reportPath schema union inputs
  | .describe schemaPath =>
    let schema ← readSchema disk schemaPath
    return ⟨← putOut disk invocation.reportPath schema.describe, "", true⟩

end TaggedUnion.Command
