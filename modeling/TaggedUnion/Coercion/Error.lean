import TaggedUnion.Scalar.Builtin

/-!
# What a runtime value does wrong

Each error has a path from the root of the value to the part that is wrong, and a cause.
-/

namespace TaggedUnion

/-- One step from a value to a part of it. -/
inductive PathSegment where
  | key (name : String)
  | index (index : Nat)
  deriving DecidableEq, Repr

/-- Why a part of a value does not conform to its type. -/
inductive CoercionCause where
  | nullForNonNull (typeText : String)
  | unknownType (name : String)
  | notAnObject (typeName : String)
  | missingField (field typeText : String)
  | undeclaredField (field typeName : String)
  /-- `shown` is the text of the value. -/
  | notInEnum (shown enumName : String)
  | scalar (name : String) (error : ScalarError)
  deriving DecidableEq, Repr

/-- A cause and the path to the part of the value that it is about. -/
structure CoercionError where
  path : List PathSegment
  cause : CoercionCause
  deriving DecidableEq, Repr

/-- The wording of a cause. -/
def CoercionCause.message : CoercionCause → String
  | nullForNonNull typeText => "Expected non-nullable type \"" ++ typeText ++ "\" not to be null."
  | unknownType name => "Unknown type \"" ++ name ++ "\"."
  | notAnObject typeName => "Expected type \"" ++ typeName ++ "\" to be an object."
  | missingField field typeText =>
    "Field \"" ++ field ++ "\" of required type \"" ++ typeText ++ "\" was not provided."
  | undeclaredField field typeName =>
    "Field \"" ++ field ++ "\" is not defined by type \"" ++ typeName ++ "\"."
  | notInEnum shown enumName =>
    "Value " ++ shown ++ " does not exist in \"" ++ enumName ++ "\" enum."
  | scalar name error => "Expected type \"" ++ name ++ "\". " ++ error.message

namespace CoercionError

/-- An error about the value itself. -/
def here (cause : CoercionCause) : CoercionError := ⟨[], cause⟩

/-- The error seen from the container of the value. -/
def under (segment : PathSegment) (error : CoercionError) : CoercionError :=
  { error with path := segment :: error.path }

/-- One segment as it is written. -/
def segmentText : PathSegment → String
  | .key name => "." ++ name
  | .index index => "[" ++ toString index ++ "]"

/-- The path as it is written: `value.friends[1].name`. -/
def pathText (error : CoercionError) : String :=
  "value" ++ String.join (error.path.map segmentText)

/-- The wording of an error, with its path unless it is about the whole value. -/
def text (error : CoercionError) : String :=
  if error.path.isEmpty then error.cause.message
  else "At \"" ++ error.pathText ++ "\": " ++ error.cause.message

end CoercionError

/-- The wording of several errors, one a line. -/
def reportOf (errors : List CoercionError) : String :=
  "\n".intercalate (errors.map CoercionError.text)

end TaggedUnion
