import TaggedUnion.Files.Disk
import TaggedUnion.Glob.Pattern

/-!
# Searching files by pattern

`Pattern.search` lists the paths that a pattern describes, directory by directory and in each one in
the order of the names. A directory comes before what is below it.

The search follows directories down to `maxDepth` of them, which is more than a path can name.
-/

namespace TaggedUnion.Glob

/-- How many directories a search goes down at most. -/
def maxDepth : Nat := 4096

variable {m : Type → Type} [Monad m]

/-- The path of an entry of a directory. The working directory itself is not written. -/
def entryPath (directory name : String) : String :=
  if Path.isCurrent directory then name else Path.join directory name

/-- The names for a directory itself and for the one around it that a component describes, in the
order in which they are found. They have to be asked for by a dot in front. -/
def dotNames : Component → List String
  | .wild (.char '.' :: parts) =>
    ["..", "."].filter fun name => matchesParts (.char '.' :: parts) name.toList
  | _ => []

mutual

/-- Goes on from a path that the components so far describe. -/
def arrive (disk : Disk m) (onlyDirectories : Bool) (fuel : Nat) (components : List Component)
    (path : String) : m (List String) := do
  match fuel with
  | 0 => return []
  | fuel + 1 =>
    let isDirectory ← disk.isDirectory path
    match components with
    | [] => return if onlyDirectories && !isDirectory then [] else [path]
    | .literal name :: rest =>
      let next := entryPath path name
      let isDot := name = "." ∨ name = ".."
      let found ← if isDot then pure isDirectory else disk.contains next
      if found then arrive disk onlyDirectories fuel rest next else return []
    | component :: rest =>
      if !isDirectory then return []
      let dots ← (dotNames component).mapM fun name =>
        arrive disk onlyDirectories fuel rest (Path.join path name)
      let inner ← searchEntries disk onlyDirectories fuel (component :: rest) path
      return dots.flatten ++ inner

/-- Searches the entries of a directory. -/
def searchEntries (disk : Disk m) (onlyDirectories : Bool) (fuel : Nat)
    (components : List Component) (directory : String) : m (List String) := do
  match fuel with
  | 0 => return []
  | fuel + 1 =>
    let found ← (← disk.entries directory).mapM fun name =>
      visit disk onlyDirectories fuel components name (entryPath directory name)
    return found.flatten

/-- Matches an entry with the first component, and goes on where it leads. -/
def visit (disk : Disk m) (onlyDirectories : Bool) (fuel : Nat) (components : List Component)
    (name path : String) : m (List String) := do
  match fuel with
  | 0 => return []
  | fuel + 1 =>
    match components with
    | [] => return []
    | .directories :: rest =>
      let isDirectory ← disk.isDirectory path
      let rest := rest.dropWhile (· = .directories)
      let here ←
        match rest with
        | [] => pure (if isDirectory then [path] else [])
        | component :: rest =>
          if component.matchesName name then arrive disk onlyDirectories fuel rest path else pure []
      let inner ←
        if isDirectory then searchEntries disk onlyDirectories fuel (.directories :: rest) path
        else pure []
      return here ++ inner
    | component :: rest =>
      if component.matchesName name then arrive disk onlyDirectories fuel rest path else return []

end

/-- The paths that a pattern describes, in order. -/
def Pattern.search (disk : Disk m) (pattern : Pattern) : m (List String) :=
  -- One directory takes at most three steps.
  let fuel := 3 * (maxDepth + pattern.components.length)
  arrive disk pattern.onlyDirectories fuel pattern.components
    (if pattern.isAbsolute then "/" else ".")

end TaggedUnion.Glob
