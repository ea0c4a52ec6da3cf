import TaggedUnion.Coercion.Error

/-!
# Trails

A check goes through a value with one path, which it makes longer before it goes to a part and
shorter when it is back, and with one list of errors, to which it adds what it finds. It goes on
after an error, with null in place of a result. Only at the end the errors decide what the outcome
is.
-/

namespace TaggedUnion

/-- What a check carries along: the path to the part that it is at, and the errors found so far. -/
structure Trail where
  path : Array PathSegment := #[]
  errors : Array CoercionError := #[]
  deriving DecidableEq, Repr

/-- The outcome of a check: every error, in order, or a result. -/
abbrev Checked (α : Type) := Except (List CoercionError) α

namespace Trail

/-- Goes to a part. -/
def enter (segment : PathSegment) : StateM Trail Unit :=
  modify fun trail => { trail with path := trail.path.push segment }

/-- Goes back from a part. -/
def leave : StateM Trail Unit := modify fun trail => { trail with path := trail.path.pop }

/-- Adds an error about the part that the check is at. -/
def report (cause : CoercionCause) : StateM Trail Unit :=
  modify fun trail => { trail with errors := trail.errors.push ⟨trail.path.toList, cause⟩ }

/-- Adds an error, and goes on with null. -/
def refuse (cause : CoercionCause) : StateM Trail Json := do
  report cause
  return .null

/-- What a check has come to: its result, unless there are errors on the trail. -/
def verdict {α : Type} (result : α) (trail : Trail) : Checked α :=
  if trail.errors.isEmpty then .ok result else .error trail.errors.toList

/-- The outcome of a check that starts with no errors at the root of a value. -/
def outcome {α : Type} (check : StateM Trail α) : Checked α :=
  let (result, trail) := check.run {}
  verdict result trail

end Trail

end TaggedUnion
