import TaggedUnion.Files.Disk
import TaggedUnion.Files.Path

/-!
# File trees

The files below a working directory, as a value. A place in the tree is the list of the names that
lead to it. Outside the working directory nothing is known but that there are directories.

* `FileTree.ofFiles`: the tree of files that are put at given paths.
* `FileTree.disk`: access to the files of a tree.
-/

namespace TaggedUnion

/-- Files with their contents, and directories that were created. The directories around a file need
not be listed. A file whose bytes are not UTF-8 has no contents. -/
structure FileTree where
  files : List (List String × Option String)
  directories : List (List String) := []
  deriving Repr

namespace FileTree

/-- What a path leads to. -/
inductive Target where
  /-- A directory in the tree. -/
  | directory (place : List String)
  | file (place : List String) (contents : Option String)
  /-- A directory outside the tree. -/
  | outside
  deriving Repr

/-- Whether one place is below another. -/
def isBelow (outer place : List String) : Bool :=
  outer.isPrefixOf place && outer.length < place.length

/-- Whether there is a directory at a place. -/
def hasDirectory (tree : FileTree) (place : List String) : Bool :=
  place.isEmpty || tree.directories.any (fun known => known = place || isBelow place known) ||
    tree.files.any fun file => isBelow place file.1

/-- What is at a place. -/
def at? (tree : FileTree) (place : List String) : Option Target :=
  match tree.files.find? fun file => file.1 = place with
  | some (_, contents) => some (.file place contents)
  | none => if tree.hasDirectory place then some (.directory place) else none

/-- Follows one segment of a path. -/
def follow (tree : FileTree) (target : Target) (segment : String) : Except FileError Target :=
  match target with
  | .file _ _ => .error .notADirectory
  | .outside =>
    if Path.isIdle segment ∨ segment = ".." then .ok .outside
    else if maxNameBytes < segment.utf8ByteSize then .error .nameTooLong
    else .error .notFound
  | .directory place =>
    if Path.isIdle segment then .ok target
    else if segment = ".." then
      .ok (if place.isEmpty then .outside else .directory place.dropLast)
    else if maxNameBytes < segment.utf8ByteSize then .error .nameTooLong
    else
      match tree.at? (place ++ [segment]) with
      | some found => .ok found
      | none => .error .notFound

/-- Where a path starts. -/
def start (path : String) : Target := if Path.isAbsolute path then .outside else .directory []

/-- What a path leads to. -/
def resolve (tree : FileTree) (path : String) : Except FileError Target :=
  match FileError.ofPath? path with
  | some error => .error error
  | none => (Path.segments path).foldlM tree.follow (start path)

/-- The contents of a file. -/
def read (tree : FileTree) (path : String) : Except FileError String :=
  match tree.resolve path with
  | .error error => .error error
  | .ok (.file _ (some contents)) => .ok contents
  | .ok (.file _ none) => .error .notText
  | .ok (.directory _) => .error .isADirectory
  | .ok .outside => .error .isADirectory

/-- Whether a path leads to a directory. -/
def isDirectory (tree : FileTree) (path : String) : Bool :=
  match tree.resolve path with
  | .ok (.directory _) => true
  | .ok .outside => true
  | _ => false

/-- The names of the entries of the directory at a place. -/
def entriesAt (tree : FileTree) (place : List String) : List String :=
  let known := tree.files.map Prod.fst ++ tree.directories
  let names := (known.filter (isBelow place)).filterMap fun inner => inner[place.length]?
  (names.mergeSort fun a b => decide (a ≤ b)).eraseDups

/-- The names of the entries of a directory. -/
def entries (tree : FileTree) (path : String) : List String :=
  match tree.resolve path with
  | .ok (.directory place) => tree.entriesAt place
  | _ => []

/-- Creates the directory of a given name behind other segments, unless it is there. -/
def createLast (tree : FileTree) (start : Target) (outer : List String) (name : String) :
    Except FileError FileTree :=
  match outer.foldlM tree.follow start with
  | .error error => .error error
  | .ok target =>
    match tree.follow target name, target with
    | .ok (.file _ _), _ => .error .alreadyExists
    | .ok _, _ => .ok tree
    | .error .notFound, .directory place =>
      .ok { tree with directories := tree.directories ++ [place ++ [name]] }
    | .error error, _ => .error error

/-- Creates the directories that segments lead to, the last segment first. Those before it are
looked at only if it cannot be created for want of them. -/
def createAll (tree : FileTree) (start : Target) : List String → Except FileError FileTree
  | [] => .ok tree
  | name :: outer =>
    match tree.createLast start outer.reverse name with
    | .error .notFound =>
      match tree.createAll start outer with
      | .error error => .error error
      | .ok tree => tree.createLast start outer.reverse name
    | result => result

/-- Creates the directories of a path. -/
def createDirectories (tree : FileTree) (path : String) : Except FileError FileTree :=
  if path = "" then .ok tree
  else
    match FileError.ofPath? path with
    | some error => .error error
    | none =>
      let segments := (Path.segments path).filter fun segment => !Path.isIdle segment
      tree.createAll (start path) segments.reverse

/-- Puts a file at a place. -/
def setFile (tree : FileTree) (place : List String) (contents : Option String) : FileTree :=
  { tree with files := (place, contents) :: tree.files.filter fun file => file.1 ≠ place }

/-- Puts a file at a path, in the place of the one that is there. Its directory has to be there, and
its path must not end like that of a directory. -/
def put (tree : FileTree) (path : String) (contents : Option String) : Except FileError FileTree :=
  let segments := Path.segments path
  let written := (segments.reverse.dropWhile (· = "")).reverse
  let name := written.getLast?.getD ""
  let namesDirectory := written.length < segments.length ∨ Path.isIdle name ∨ name = ".."
  match FileError.ofPath? path with
  | some error => .error error
  | none =>
    match written.dropLast.foldlM tree.follow (start path) with
    | .error error => .error error
    | .ok (.file _ _) => .error .notADirectory
    | .ok target =>
      if namesDirectory then .error .isADirectory
      else
        match tree.follow target name, target with
        | .ok (.file place _), _ => .ok (tree.setFile place contents)
        | .ok _, _ => .error .isADirectory
        | .error .notFound, .directory place => .ok (tree.setFile (place ++ [name]) contents)
        | .error error, _ => .error error

/-- Sets the contents of a file. -/
def write (tree : FileTree) (path contents : String) : Except FileError FileTree :=
  tree.put path (some contents)

/-- The tree of the given files, which are put at their paths one after the other. The directories
around them are created. -/
def ofFiles (files : List (String × Option String)) : Except FileError FileTree :=
  files.foldlM (fun tree (path, contents) => do
    (← tree.createDirectories ((Path.parent? path).getD "")).put path contents) ⟨[], []⟩

/-- Keeps what an operation makes of the tree. -/
def update (result : Except FileError FileTree) : StateM FileTree (Except FileError Unit) :=
  match result with
  | .error error => pure (.error error)
  | .ok tree => fun _ => ((.ok ()), tree)

/-- Access to the files of a tree. -/
def disk : Disk (StateM FileTree) where
  read path := do return (← get).read path
  contains path := do return ((← get).resolve path).isOk
  isDirectory path := do return (← get).isDirectory path
  entries path := do return (← get).entries path
  createDirectories path := do update ((← get).createDirectories path)
  write path contents := do update ((← get).write path contents)

end FileTree

end TaggedUnion
