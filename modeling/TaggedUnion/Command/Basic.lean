import TaggedUnion.Files.Disk
import TaggedUnion.Glob.Pattern
import TaggedUnion.Schema.Document
import TaggedUnion.Schema.Error

/-!
# Commands

What a user can ask for: to check runtime values or literals against a union of a schema document,
or to describe the schema. `Failure` is what can keep a command from giving a report at all.
-/

namespace TaggedUnion.Command

/-- A union of a schema document. -/
structure Target where
  schemaPath : String
  unionName : String
  deriving DecidableEq, Repr

/-- How the values of a file are found. -/
structure ValueLayout where
  /-- Whether each line is a value of its own. -/
  byLine : Bool
  /-- The pointer to the part of each value that is checked. -/
  pointer : Option String
  deriving DecidableEq, Repr

/-- Where the literals come from. -/
inductive LiteralInput where
  | texts (texts : List String)
  | files (patterns : List String)
  deriving DecidableEq, Repr

/-- What to do. The report goes to a file if a path is given for it. -/
inductive Request where
  | checkValues (target : Target) (layout : ValueLayout) (patterns : List String)
  | checkLiterals (target : Target) (input : LiteralInput)
  | describe (schemaPath : String)
  deriving DecidableEq, Repr

/-- A request and the path for its report. -/
structure Invocation where
  request : Request
  reportPath : Option String
  deriving DecidableEq, Repr

/-- What keeps a command from giving a report. -/
inductive Failure where
  | unreadableSchema (path : String) (error : FileError)
  /-- The text of the schema document is wrong. -/
  | malformedSchema (path text : String) (error : DocumentError)
  /-- The declarations of the schema document are wrong. -/
  | unsoundSchema (path : String) (error : SchemaError)
  /-- `known` lists the unions that there are. -/
  | notAUnion (target : Target) (known : List String)
  | badPattern (error : Glob.PatternError)
  | noMatch (pattern : String)
  | unreadableInput (path : String) (error : FileError)
  | directoryNotCreated (path : String) (error : FileError)
  | reportNotWritten (path : String) (error : FileError)
  /-- A literal has a bad escape that cannot be quoted. -/
  | aborted
  deriving DecidableEq, Repr

/-- A message and what it says again of its cause. -/
def withCause (context cause : String) : String := context ++ ": " ++ cause

/-- The wording of a failure, from the outermost context to the innermost cause. A fault of a schema
document is told with its context and then by itself. -/
def Failure.message : Failure → String
  | unreadableSchema path error =>
    withCause (withCause ("failed to read schema document " ++ path) error.message) error.message
  | malformedSchema path text error =>
    let cause := error.located text
    withCause (withCause ("invalid schema document " ++ path) cause) cause
  | unsoundSchema path error =>
    withCause (withCause ("invalid schema document " ++ path) error.message) error.message
  | notAUnion target known =>
    "\"" ++ target.unionName ++ "\" is not a union in " ++ target.schemaPath ++ " (unions: " ++
      ", ".intercalate known ++ ")"
  | badPattern error => withCause "failed to resolve input file paths" error.message
  | noMatch pattern =>
    withCause "failed to resolve input file paths" ("glob pattern matched no files: " ++ pattern)
  | unreadableInput path error => withCause ("failed to read source file " ++ path) error.message
  | directoryNotCreated path error => withCause ("failed to create " ++ path) error.message
  | reportNotWritten path error => withCause ("failed to write " ++ path) error.message
  | aborted => "a bad escape sequence ends inside a character"

/-- The exit status of a command that fails. -/
def Failure.exitCode : Failure → Nat
  | aborted => 101
  | _ => 2

end TaggedUnion.Command
