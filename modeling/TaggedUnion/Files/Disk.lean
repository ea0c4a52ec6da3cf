/-!
# Access to files

What a command needs of the files around it, and how that can fail. `Disk m` leaves open where the
files are: on the machine, or in a `FileTree`.
-/

namespace TaggedUnion

/-- Why a file or directory cannot be used. -/
inductive FileError where
  | notFound
  | alreadyExists
  | notADirectory
  | isADirectory
  /-- The path, or a name in it, is too long. -/
  | nameTooLong
  /-- The path has a character that no path can have. -/
  | nulInPath
  /-- The bytes are not UTF-8. -/
  | notText
  deriving DecidableEq, Repr

/-- The wording of an error. -/
def FileError.message : FileError → String
  | notFound => "No such file or directory (os error 2)"
  | alreadyExists => "File exists (os error 17)"
  | notADirectory => "Not a directory (os error 20)"
  | isADirectory => "Is a directory (os error 21)"
  | nameTooLong => "File name too long (os error 36)"
  | nulInPath => "file name contained an unexpected NUL byte"
  | notText => "stream did not contain valid UTF-8"

/-- The number of bytes that a name in a path may have. -/
def maxNameBytes : Nat := 255

/-- The number of bytes that a path may have. -/
def maxPathBytes : Nat := 4095

/-- Why a path cannot lead anywhere, whatever files there are. -/
def FileError.ofPath? (path : String) : Option FileError :=
  if '\x00' ∈ path.toList then some .nulInPath
  else if path = "" then some .notFound
  else if maxPathBytes < path.utf8ByteSize then some .nameTooLong
  else none

/-- Operations on files and directories, which are named by path. -/
structure Disk (m : Type → Type) where
  /-- The contents of a file. -/
  read : String → m (Except FileError String)
  /-- Whether there is a file or directory. -/
  contains : String → m Bool
  isDirectory : String → m Bool
  /-- The names of the entries of a directory, in ascending order. -/
  entries : String → m (List String)
  /-- Creates a directory and those that it is in, as far as they are missing. -/
  createDirectories : String → m (Except FileError Unit)
  /-- Sets the contents of a file. -/
  write : String → String → m (Except FileError Unit)

end TaggedUnion
