import TaggedUnion.Proofs.Coercion.Composition

/-!
# The errors of a value, part by part

The check of runtime values against a plain account of what is wrong with them. The account says for
each type and value which errors there are, in order and each with its path; it makes no value and
does not stop early.

* `InputType.faults`: the errors of a value under a type.
* `Checked.Reports`: a check with exactly the given errors, or with a result if there are none.
* `coerce_reports_faults`: the check reports the errors of the account.
-/

namespace TaggedUnion

/-! ## What is wrong with a value -/

/-- The error of a value that an enum does not have. -/
def EnumType.faults (value : Json) (enum : EnumType) : List CoercionError :=
  match value with
  | .string name => if name ∈ enum.values then [] else [.here (.notInEnum value.compact enum.name)]
  | _ => [.here (.notInEnum value.compact enum.name)]

/-- The error of a value that a built-in scalar does not take. -/
def Builtin.faults (value : Json) (scalar : Builtin) : List CoercionError :=
  match scalar.parseValue value with
  | .ok _ => []
  | .error error => [.here (.scalar scalar.name error)]

/-- The error of a field that is left out, if it has to be given. -/
def Field.missing (field : Field) : List CoercionError :=
  if field.default? = none ∧ field.type.isNonNull then
    [.here (.missingField field.name field.type.text)]
  else []

/-- One error for each member that is not declared, in the order of the members. -/
def ObjectType.undeclaredFaults (members : List (String × Json)) (object : ObjectType) :
    List CoercionError :=
  ((members.map Prod.fst).filter fun name => (object.field? name).isNone).map fun name =>
    .here (.undeclaredField name object.name)

/-- The one error of a union whose candidate finds errors in the value. -/
def UnionType.refusal (union : UnionType) (typeText : String) :
    List CoercionError → List CoercionError
  | [] => []
  | errors =>
    [.here (.scalar union.name (.union (.coercionFailed union.name typeText (reportOf errors))))]

/-- The errors of items one after the other, each with the index of its item in front. The first
item has the given index. -/
def indexed (index : Nat) (faults : List (List CoercionError)) : List CoercionError :=
  (faults.zipIdx index).flatMap fun entry => entry.1.map (·.under (.index entry.2))

/-- The errors of a value under a type, in order and each with its path. Items and members put their
index or name in front; nothing else does. -/
def InputType.faults (registry : Registry) (value : Json) (type : InputType) :
    List CoercionError :=
  match type with
  | .nonNull inner =>
    if value.isNull then [.here (.nullForNonNull (InputType.nonNull inner).text)]
    else inner.faults registry value
  | .reference name =>
    if value.isNull then []
    else
      match registry.get? name with
      | some type => (InputType.named type).faults registry value
      | none => [.here (.unknownType name)]
  | .list item =>
    match value with
    | .null => []
    | .array items => indexed 0 (items.map fun value => item.faults registry value)
    | lone => item.faults registry lone
  | .named type =>
    if value.isNull then []
    else
      match type with
      | .builtin scalar => scalar.faults value
      | .enum enum => enum.faults value
      | .object object =>
        match value with
        | .object members =>
          (object.fields.flatMap fun field =>
            match h : members.lookup field.name with
            | some value =>
              have := sizeOf_lt_of_lookup h
              (field.type.faults registry value).map (·.under (.key field.name))
            | none => field.missing) ++ object.undeclaredFaults members
        | _ => [.here (.notAnObject object.name)]
      | .union union =>
        match h : union.typeOfValue value with
        | .error error => [.here (.scalar union.name (.union error))]
        | .ok type =>
          have := UnionType.before_of_typeOfValue h
          union.refusal type.name ((InputType.named type).faults registry value)
termination_by (sizeOf value, type)
decreasing_by
  · exact .right _ .inner
  · exact .right _ .target
  · refine .left _ _ ?_
    have := List.sizeOf_lt_of_mem ‹_ ∈ items›
    simp only [Json.array.sizeOf_spec]
    omega
  · exact .right _ .item
  · refine .left _ _ ?_
    simp only [Json.object.sizeOf_spec]
    omega
  · exact .right _ ‹_›

/-- The errors of a declared field, given the members of the value. -/
def Field.faults (registry : Registry) (members : List (String × Json)) (field : Field) :
    List CoercionError :=
  match members.lookup field.name with
  | some value => (field.type.faults registry value).map (·.under (.key field.name))
  | none => field.missing

/-! ## Equations -/

section Equations

variable {registry : Registry} {value : Json}

theorem faults_null_nonNull {inner : InputType} :
    (InputType.nonNull inner).faults registry .null =
      [.here (.nullForNonNull (InputType.nonNull inner).text)] := by
  rw [InputType.faults.eq_def]
  rfl

theorem faults_null {type : InputType} (h : type.isNonNull = false) :
    type.faults registry .null = [] := by
  rw [InputType.faults.eq_def]
  cases type with
  | nonNull inner => simp [InputType.isNonNull] at h
  | _ => rfl

theorem faults_nonNull {inner : InputType} (h : value ≠ .null) :
    (InputType.nonNull inner).faults registry value = inner.faults registry value := by
  rw [InputType.faults.eq_def]
  simp [h]

theorem faults_reference_some {name : String} {type : NamedType} (h : value ≠ .null)
    (hget : registry.get? name = some type) :
    (InputType.reference name).faults registry value =
      (InputType.named type).faults registry value := by
  rw [InputType.faults.eq_def]
  simp [h, hget]

theorem faults_reference_none {name : String} (h : value ≠ .null)
    (hget : registry.get? name = none) :
    (InputType.reference name).faults registry value = [.here (.unknownType name)] := by
  rw [InputType.faults.eq_def]
  simp [h, hget]

theorem faults_array {item : InputType} {items : List Json} :
    (InputType.list item).faults registry (.array items) =
      indexed 0 (items.map fun value => item.faults registry value) := by
  rw [InputType.faults.eq_def]

theorem faults_lone {item : InputType} (h : value ≠ .null)
    (harray : ∀ items, value ≠ .array items) :
    (InputType.list item).faults registry value = item.faults registry value := by
  rw [InputType.faults.eq_def]
  cases value <;> simp_all

theorem faults_builtin {scalar : Builtin} (h : value ≠ .null) :
    (InputType.named (.builtin scalar)).faults registry value = scalar.faults value := by
  rw [InputType.faults.eq_def]
  simp [h]

theorem faults_enum {enum : EnumType} (h : value ≠ .null) :
    (InputType.named (.enum enum)).faults registry value = enum.faults value := by
  rw [InputType.faults.eq_def]
  simp [h]

theorem faults_object {object : ObjectType} {members : List (String × Json)} :
    (InputType.named (.object object)).faults registry (.object members) =
      object.fields.flatMap (Field.faults registry members) ++
        object.undeclaredFaults members := by
  rw [InputType.faults.eq_def]
  simp only [Json.isNull, Bool.false_eq_true, ↓reduceIte]
  congr 2
  funext field
  unfold Field.faults
  split
  · rename_i hlookup
    simp only [hlookup]
  · rename_i hlookup
    simp only [hlookup]

theorem faults_not_object {object : ObjectType} (h : value ≠ .null)
    (hobject : ∀ members, value ≠ .object members) :
    (InputType.named (.object object)).faults registry value =
      [.here (.notAnObject object.name)] := by
  rw [InputType.faults.eq_def]
  cases value <;> simp_all

theorem faults_union {union : UnionType} (h : value ≠ .null) :
    (InputType.named (.union union)).faults registry value =
      match union.typeOfValue value with
      | .error error => [.here (.scalar union.name (.union error))]
      | .ok type => union.refusal type.name ((InputType.named type).faults registry value) := by
  rw [InputType.faults.eq_def]
  simp only [Json.isNull_eq_true, h, ↓reduceIte]
  split <;> simp_all

end Equations

/-! ## What a check reports -/

namespace Checked

variable {α β γ : Type}

/-- A check that finds exactly these errors, or has a result if there are none. -/
inductive Reports : Checked α → List CoercionError → Prop where
  | accept {a : α} : Reports (.ok a) []
  | refuse {errors : List CoercionError} (h : errors ≠ []) : Reports (.error errors) errors

theorem reports_refuse {cause : CoercionCause} :
    Reports (Checked.refuse cause : Checked α) [.here cause] :=
  .refuse (List.cons_ne_nil _ _)

namespace Reports

variable {outcome : Checked α} {errors : List CoercionError}

theorem map (f : α → β) (h : Reports outcome errors) : Reports (outcome.map f) errors := by
  cases h with
  | accept => exact .accept
  | refuse h => exact .refuse h

theorem under (segment : PathSegment) (h : Reports outcome errors) :
    Reports (Checked.under segment outcome) (errors.map (·.under segment)) := by
  cases h with
  | accept => exact .accept
  | refuse h => exact .refuse (by simpa using h)

theorem both (combine : α → β → γ) {second : Checked β} {more : List CoercionError}
    (h : Reports outcome errors) (h' : Reports second more) :
    Reports (Checked.both combine outcome second) (errors ++ more) := by
  cases h with
  | accept =>
    cases h' with
    | accept => exact .accept
    | refuse h' => exact .refuse h'
  | refuse h =>
    cases h' with
    | accept => exact (List.append_nil errors).symm ▸ .refuse h
    | refuse h' => exact .refuse (List.append_ne_nil_of_left_ne_nil h _)

theorem eq_error_iff (h : Reports outcome errors) {found : List CoercionError} :
    outcome = .error found ↔ found = errors ∧ errors ≠ [] := by
  cases h with
  | accept => simp
  | refuse h => simp [h, eq_comm]

theorem eq_ok_iff (h : Reports outcome errors) : (∃ a, outcome = .ok a) ↔ errors = [] := by
  cases h with
  | accept => simp
  | refuse h => simp [h]

end Reports

end Checked

section Reports

variable {registry : Registry} {value : Json}

theorem Builtin.reports_faults {scalar : Builtin} :
    Checked.Reports ((scalar.parseValue value).mapError fun error =>
      [.here (.scalar scalar.name error)]) (scalar.faults value) := by
  unfold Builtin.faults
  cases scalar.parseValue value with
  | ok out => exact .accept
  | error error => exact Checked.reports_refuse

theorem EnumType.reports_faults {enum : EnumType} :
    (enum.coerce value).Reports (enum.faults value) := by
  unfold EnumType.coerce EnumType.faults
  cases value with
  | string name =>
    simp only []
    split
    · exact .accept
    · exact Checked.reports_refuse
  | _ => exact Checked.reports_refuse

theorem reports_absentField {field : Field} : (absentField field).Reports field.missing := by
  unfold absentField Field.missing
  cases field.default? with
  | some value => exact .accept
  | none =>
    cases field.type.isNonNull with
    | true => exact Checked.reports_refuse
    | false => exact .accept

theorem reports_undeclared {object : ObjectType} {members : List (String × Json)} :
    (undeclared object members).Reports (object.undeclaredFaults members) := by
  unfold undeclared ObjectType.undeclaredFaults
  generalize (members.map Prod.fst).filter _ = names
  cases names with
  | nil => exact .accept
  | cons name rest => exact .refuse (List.cons_ne_nil _ _)

/-- A union reports the errors that its candidate finds as one. -/
theorem reports_gate {union : UnionType} {typeText : String} {outcome : Checked Json}
    {errors : List CoercionError} (h : outcome.Reports errors) :
    Checked.Reports ((gate union.name typeText value outcome).mapError fun error =>
      [.here (.scalar union.name (.union error))]) (union.refusal typeText errors) := by
  cases h with
  | accept => exact .accept
  | refuse h =>
    cases errors with
    | nil => exact absurd rfl h
    | cons error rest => exact Checked.reports_refuse

theorem reports_coerceItems {item : InputType} {items : List Json} {index : Nat}
    (h : ∀ value ∈ items, (item.coerce registry value).Reports (item.faults registry value)) :
    (coerceItems registry item index items).Reports
      (indexed index (items.map fun value => item.faults registry value)) := by
  induction items generalizing index with
  | nil => exact .accept
  | cons value rest ih =>
    obtain ⟨hvalue, hrest⟩ := List.forall_mem_cons.mp h
    exact (hvalue.under (.index index)).both _ (ih hrest)

theorem reports_coerceFields {members : List (String × Json)} {fields : List Field}
    (h : ∀ field ∈ fields, ∀ value, members.lookup field.name = some value →
      (field.type.coerce registry value).Reports (field.type.faults registry value)) :
    (coerceFields registry members fields).Reports
      (fields.flatMap (Field.faults registry members)) := by
  induction fields with
  | nil => exact .accept
  | cons field rest ih =>
    obtain ⟨hfield, hrest⟩ := List.forall_mem_cons.mp h
    have hhere : (coerceField registry members field).Reports
        (field.faults registry members) := by
      unfold coerceField Field.faults
      cases hlookup : members.lookup field.name with
      | some value => exact ((hfield value hlookup).map _).under (.key field.name)
      | none => exact reports_absentField
    rw [coerceFields_cons, List.flatMap_cons]
    exact hhere.both _ (ih hrest)

/-- **The check reports what is wrong.** A check finds the errors that are said apart from it, in
their order, and has a result only if there are none. -/
theorem coerce_reports_faults (registry : Registry) (type : InputType) (value : Json) :
    (type.coerce registry value).Reports (type.faults registry value) := by
  induction type, value using valueInduction registry with
  | null type =>
    cases type with
    | nonNull inner =>
      rw [coerce_null_nonNull, faults_null_nonNull]
      exact Checked.reports_refuse
    | _ =>
      rw [coerce_null rfl, faults_null rfl]
      exact .accept
  | nonNull inner value hnull ih =>
    rw [coerce_nonNull hnull, faults_nonNull hnull]
    exact ih
  | reference name value hnull ih =>
    cases hget : registry.get? name with
    | none =>
      rw [coerce_reference_none hnull hget, faults_reference_none hnull hget]
      exact Checked.reports_refuse
    | some type =>
      rw [coerce_reference_some hnull hget, faults_reference_some hnull hget]
      exact ih type hget
  | array item items ih =>
    rw [coerce_array, faults_array]
    exact (reports_coerceItems ih).map _
  | lone item value hnull harray ih =>
    rw [coerce_lone hnull harray, faults_lone hnull harray]
    exact ih.map _
  | builtin scalar value hnull =>
    rw [coerce_builtin hnull, faults_builtin hnull]
    exact Builtin.reports_faults
  | enum enum value hnull =>
    rw [coerce_enum hnull, faults_enum hnull]
    exact EnumType.reports_faults
  | object object members ih =>
    rw [coerce_object, faults_object]
    exact (reports_coerceFields ih).both _ reports_undeclared
  | other object value hnull hobject =>
    rw [coerce_not_object hnull hobject, faults_not_object hnull hobject]
    exact Checked.reports_refuse
  | union union value hnull ih =>
    rw [coerce_union hnull, faults_union hnull]
    cases htype : union.typeOfValue value with
    | error error =>
      rw [parseValue_of_typeOfValue_error htype]
      exact Checked.reports_refuse
    | ok type =>
      rw [parseValue_of_typeOfValue htype]
      exact reports_gate (ih type htype)

end Reports

end TaggedUnion
