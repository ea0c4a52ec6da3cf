import TaggedUnion.Command.Arguments
import TaggedUnion.Command.Run

/-!
# The program

Takes a command line, runs the command on the files of the machine, and exits with its status.
-/

namespace TaggedUnion

/-- What an error of the machine says about a file. -/
def FileError.ofMachine : IO.Error → FileError
  | .alreadyExists .. => .alreadyExists
  | .inappropriateType .. => .notADirectory
  | .invalidArgument .. => .nameTooLong
  | _ => .notFound

/-- The result of an action on the file that a path names. -/
def attempt {α : Type} (path : String) (action : IO α) : IO (Except FileError α) := do
  match FileError.ofPath? path with
  | some error => return .error error
  | none =>
    match ← action.toBaseIO with
    | .ok result => return .ok result
    | .error error => return .error (.ofMachine error)

/-- The contents of a file of the machine. -/
def readMachine (path : String) : IO (Except FileError String) := do
  if path ≠ "" && (← ((← IO.currentDir) / path).isDir) then return .error .isADirectory
  match ← attempt path (IO.FS.readBinFile path) with
  | .error error => return .error error
  | .ok bytes =>
    match String.fromUTF8? bytes with
    | some text => return .ok text
    | none => return .error .notText

/-- Sets the contents of a file of the machine. -/
def writeMachine (path text : String) : IO (Except FileError Unit) := do
  if path ≠ "" && (← ((← IO.currentDir) / path).isDir) then return .error .isADirectory
  attempt path (IO.FS.writeFile path text)

/-- Access to the files of the machine. -/
def machine : Disk IO where
  read := readMachine
  contains path := do ((← IO.currentDir) / path).pathExists
  isDirectory path := do ((← IO.currentDir) / path).isDir
  entries path := do
    let found ← attempt path (do ((← IO.currentDir) / path).readDir)
    let names := (found.toOption.getD #[]).toList.map fun entry => entry.fileName
    return names.mergeSort fun a b => decide (a ≤ b)
  createDirectories path :=
    if path = "" then pure (.ok ()) else attempt path (IO.FS.createDirAll path)
  write := writeMachine

end TaggedUnion

open TaggedUnion in
/-- Runs the program. -/
def main (arguments : List String) : IO UInt32 := do
  match Command.parse arguments with
  | .error error =>
    IO.eprintln error.message
    return error.exitCode.toUInt32
  | .ok invocation =>
    match ← (invocation.run machine).run with
    | .error failure =>
      IO.eprintln ("error: " ++ failure.message)
      return failure.exitCode.toUInt32
    | .ok completion =>
      IO.print completion.output
      IO.eprint completion.notice
      return completion.exitCode.toUInt32
