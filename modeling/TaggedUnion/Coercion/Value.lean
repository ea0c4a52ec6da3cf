import TaggedUnion.Coercion.Descent
import TaggedUnion.Coercion.Trail
import TaggedUnion.Registry

/-!
# Checking runtime values

`InputType.coerce` checks a runtime value against a type. It finds every error, each with its path,
or gives the value that the type makes of it: a lone item of a list as a list, an object with its
fields in the order of declaration and the defaults of those left out.

A union checks the value against the candidate that the value names, from the root on, and gives the
value unchanged.
-/

namespace TaggedUnion

theorem sizeOf_lt_of_lookup {α : Type} [SizeOf α] {key : String} {entries : List (String × α)}
    {found : α} (h : entries.lookup key = some found) : sizeOf found < sizeOf entries := by
  induction entries with
  | nil => simp at h
  | cons entry rest ih =>
    obtain ⟨name, value⟩ := entry
    rw [List.lookup_cons] at h
    split at h
    · simp only [Option.some.injEq] at h
      subst h
      simp; omega
    · have := ih h
      simp; omega

/-- Checks a value against an enum type: it has to be one of the values. -/
def EnumType.coerceAt (value : Json) (enum : EnumType) : StateM Trail Json :=
  match value with
  | .string name =>
    if name ∈ enum.values then return value
    else Trail.refuse (.notInEnum value.compact enum.name)
  | _ => Trail.refuse (.notInEnum value.compact enum.name)

/-- Reports each member that the object type does not declare. -/
def ObjectType.reportUndeclared (members : List (String × Json)) (object : ObjectType) :
    StateM Trail Unit :=
  forM members fun member =>
    unless (object.field? member.1).isSome do
      Trail.report (.undeclaredField member.1 object.name)

/-- What becomes of a field that is left out: its default, or nothing. It is reported if it has to
be given. -/
def Field.leaveOut (field : Field) : StateM Trail (List (String × Json)) := do
  match field.default? with
  | some value => return [(field.name, value)]
  | none =>
    if field.type.isNonNull then Trail.report (.missingField field.name field.type.text)
    return []

/-- The verdict of a union on a value that has been checked against its candidate. The value itself
is kept, whatever the candidate makes of it. -/
def gate (union typeText : String) (value : Json) : Checked Json → Except UnionError Json
  | .ok _ => .ok value
  | .error errors => .error (.coercionFailed union typeText (reportOf errors))

mutual

/-- Checks a value against a type, at some part of a greater value. -/
def InputType.coerceAt (registry : Registry) (value : Json) (type : InputType) :
    StateM Trail Json :=
  match type with
  | .named type => type.coerceAt registry value
  | .nonNull inner =>
    if value.isNull then Trail.refuse (.nullForNonNull (InputType.nonNull inner).text)
    else inner.coerceAt registry value
  | .reference name =>
    if value.isNull then return .null
    else
      match registry.get? name with
      | some type => type.coerceAt registry value
      | none => Trail.refuse (.unknownType name)
  | .list item =>
    match value with
    | .null => return .null
    | .array items => return .array (← coerceItemsAt registry item 0 items)
    -- A lone item stands for a list of one.
    | lone => return .array [← item.coerceAt registry lone]
termination_by (sizeOf value, type, 2)
decreasing_by
  · exact .right _ (.right _ Nat.one_lt_two)
  · exact .right _ (.left _ _ .inner)
  · exact .right _ (.left _ _ .target)
  · decreasing_tactic
  · exact .right _ (.left _ _ .item)

/-- Checks a value against a named type. -/
def NamedType.coerceAt (registry : Registry) (value : Json) (type : NamedType) :
    StateM Trail Json :=
  if value.isNull then return .null
  else
    match type with
    | .builtin scalar =>
      match scalar.parseValue value with
      | .ok parsed => return parsed
      | .error error => Trail.refuse (.scalar scalar.name error)
    | .enum enum => enum.coerceAt value
    | .object object =>
      match value with
      | .object members => do
        let fields ← coerceFieldsAt registry members object.fields
        object.reportUndeclared members
        return .object fields
      | _ => Trail.refuse (.notAnObject object.name)
    | .union u =>
      match u.parseValue registry value with
      | .ok parsed => return parsed
      | .error error => Trail.refuse (.scalar u.name (.union error))
termination_by (sizeOf value, InputType.named type, 1)

/-- Finds the candidate that a value names, and checks the value against it. -/
def UnionType.parseValue (registry : Registry) (value : Json) (union : UnionType) :
    Except UnionError Json :=
  match h : union.typeOfValue value with
  | .error error => .error error
  | .ok type =>
    have := UnionType.before_of_typeOfValue h
    gate union.name type.name value (Trail.outcome (type.coerceAt registry value))
termination_by (sizeOf value, InputType.named (.union union), 0)

/-- Checks the items of an array from an index on. -/
def coerceItemsAt (registry : Registry) (item : InputType) (index : Nat) (items : List Json) :
    StateM Trail (List Json) := do
  match items with
  | [] => return []
  | value :: rest =>
    Trail.enter (.index index)
    let result ← item.coerceAt registry value
    Trail.leave
    return result :: (← coerceItemsAt registry item (index + 1) rest)
termination_by (sizeOf items, item, 0)

/-- Checks the members of an object against declared fields, in the order of declaration. -/
def coerceFieldsAt (registry : Registry) (members : List (String × Json)) (fields : List Field) :
    StateM Trail (List (String × Json)) := do
  match fields with
  | [] => return []
  | field :: rest =>
    match h : members.lookup field.name with
    | some value =>
      have := sizeOf_lt_of_lookup h
      Trail.enter (.key field.name)
      let result ← field.type.coerceAt registry value
      Trail.leave
      return (field.name, result) :: (← coerceFieldsAt registry members rest)
    | none => return (← field.leaveOut) ++ (← coerceFieldsAt registry members rest)
termination_by (sizeOf members, (default : InputType), sizeOf fields)

end

/-- Checks a value against a type. -/
def InputType.coerce (registry : Registry) (value : Json) (type : InputType) : Checked Json :=
  Trail.outcome (type.coerceAt registry value)

end TaggedUnion
