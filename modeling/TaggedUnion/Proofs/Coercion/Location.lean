import Mathlib
import TaggedUnion.Proofs.Coercion.Faults
import TaggedUnion.Proofs.Literal.Rendering

/-!
# Where errors are

The path of an error leads to the part of the value that it is about. So the errors under a member
are about that member alone.

* `filter_faults`: the errors under one member are those of that member.
* `locates_of_mem_faults`: the path of each error leads to a part of the value.
* `run_coerceAt`: what the check leaves on a trail.
* `coerce_errors`: what the check reports, and where.
-/

namespace TaggedUnion

/-! ## Errors of the value itself -/

section Here

variable {value : Json}

theorem path_of_mem_faults_null {registry : Registry} {type : InputType} :
    ∀ error ∈ type.faults registry .null, error.path = [] := by
  cases type with
  | nonNull inner =>
    rw [faults_null_nonNull]
    simp [CoercionError.here]
  | _ =>
    rw [faults_null rfl]
    simp

theorem Builtin.path_of_mem_faults {scalar : Builtin} :
    ∀ error ∈ scalar.faults value, error.path = [] := by
  unfold faults
  split <;> simp [CoercionError.here]

theorem EnumType.path_of_mem_faults {enum : EnumType} :
    ∀ error ∈ enum.faults value, error.path = [] := by
  unfold faults
  split
  · split <;> simp [CoercionError.here]
  · simp [CoercionError.here]

theorem UnionType.path_of_mem_refusal {union : UnionType} {typeText : String}
    {errors : List CoercionError} : ∀ error ∈ union.refusal typeText errors, error.path = [] := by
  cases errors <;> simp [refusal, CoercionError.here]

theorem Field.path_of_mem_missing {field : Field} : ∀ error ∈ field.missing, error.path = [] := by
  unfold missing
  split <;> simp [CoercionError.here]

theorem ObjectType.path_of_mem_undeclaredFaults {object : ObjectType}
    {members : List (String × Json)} :
    ∀ error ∈ object.undeclaredFaults members, error.path = [] := by
  intro error hmem
  obtain ⟨name, -, rfl⟩ := List.mem_map.mp hmem
  rfl

end Here

/-! ## Errors under one member -/

/-- Whether an error is about a part that is reached by the given step. -/
def CoercionError.isUnder (segment : PathSegment) (error : CoercionError) : Bool :=
  error.path.head? = some segment

/-- The errors under one member of a value: those of the member under the types of its fields. -/
def memberFaults (registry : Registry) (name : String) :
    Option NamedType → Option Json → List CoercionError
  | some (.object object), some member =>
    object.fields.flatMap fun field =>
      if field.name = name then (field.type.faults registry member).map (·.under (.key name))
      else []
  | _, _ => []

theorem memberFaults_none {registry : Registry} {name : String} {type? : Option NamedType} :
    memberFaults registry name type? none = [] := by
  cases type? with
  | none => rfl
  | some type => cases type <;> rfl

section Members

variable {registry : Registry} {name : String} {errors : List CoercionError}

theorem filter_of_here {segment : PathSegment} (h : ∀ error ∈ errors, error.path = []) :
    errors.filter (·.isUnder segment) = [] := by
  refine List.filter_eq_nil_iff.mpr fun error hmem => ?_
  simp [CoercionError.isUnder, h error hmem]

theorem filter_map_under {segment segment' : PathSegment} :
    (errors.map (·.under segment')).filter (·.isUnder segment) =
      if segment' = segment then errors.map (·.under segment') else [] := by
  have hunder : ∀ error : CoercionError,
      (error.under segment').isUnder segment = decide (segment' = segment) := by
    intro error
    simp [CoercionError.isUnder, CoercionError.under]
  simp only [List.filter_map, Function.comp_def, hunder]
  split
  · rename_i hsame
    rw [List.filter_eq_self.mpr fun _ _ => decide_eq_true hsame]
  · rename_i hother
    simp [hother]

theorem filter_indexed {index : Nat} {faults : List (List CoercionError)} :
    (indexed index faults).filter (·.isUnder (.key name)) = [] := by
  unfold indexed
  rw [List.filter_flatMap]
  simp [filter_map_under]

theorem filter_fieldFaults_of_ne {members : List (String × Json)} {field : Field}
    (h : field.name ≠ name) :
    (field.faults registry members).filter (·.isUnder (.key name)) = [] := by
  unfold Field.faults
  split
  · simp [filter_map_under, h]
  · exact filter_of_here Field.path_of_mem_missing

/-- Of the errors of one field, those under a member are the ones of that member. -/
theorem filter_fieldFaults {members : List (String × Json)} {field : Field} :
    (field.faults registry members).filter (·.isUnder (.key name)) =
      match members.lookup name with
      | some member =>
        if field.name = name then (field.type.faults registry member).map (·.under (.key name))
        else []
      | none => [] := by
  by_cases hname : field.name = name
  · subst hname
    unfold Field.faults
    cases members.lookup field.name with
    | some member => simp [filter_map_under]
    | none => exact filter_of_here Field.path_of_mem_missing
  · rw [filter_fieldFaults_of_ne hname]
    cases members.lookup name <;> simp [hname]

/-- **The errors under a member are those of the member.** What else is in the value does not matter
to them. -/
theorem filter_faults (registry : Registry) (name : String) (type : InputType) (value : Json) :
    (type.faults registry value).filter (·.isUnder (.key name)) =
      memberFaults registry name (type.core? registry) (value.member? name) := by
  induction type, value using valueInduction registry with
  | null type => exact (filter_of_here path_of_mem_faults_null).trans memberFaults_none.symm
  | nonNull inner value hnull ih => rw [faults_nonNull hnull, ih, InputType.core?]
  | reference name value hnull ih =>
    cases hget : registry.get? name with
    | none =>
      rw [faults_reference_none hnull hget, InputType.core?, hget]
      rfl
    | some type =>
      rw [faults_reference_some hnull hget, ih type hget, InputType.core?, InputType.core?, hget]
  | array item items ih => exact faults_array ▸ filter_indexed.trans memberFaults_none.symm
  | lone item value hnull harray ih => rw [faults_lone hnull harray, ih, InputType.core?]
  | builtin scalar value hnull =>
    rw [faults_builtin hnull]
    exact filter_of_here Builtin.path_of_mem_faults
  | enum enum value hnull =>
    rw [faults_enum hnull]
    exact filter_of_here EnumType.path_of_mem_faults
  | object object members ih =>
    rw [faults_object, List.filter_append, List.filter_flatMap,
      filter_of_here ObjectType.path_of_mem_undeclaredFaults, List.append_nil]
    simp only [filter_fieldFaults, Json.member?, InputType.core?]
    cases members.lookup name with
    | some member => rfl
    | none => simp [memberFaults]
  | other object value hnull hobject =>
    have hmember : value.member? name = none := by
      cases value <;> simp_all [Json.member?]
    rw [faults_not_object hnull hobject, hmember, memberFaults_none]
    rfl
  | union union value hnull ih =>
    rw [faults_union hnull]
    split
    · rfl
    · exact filter_of_here UnionType.path_of_mem_refusal

end Members

/-! ## Paths -/

/-- The part of a value that one step of a path leads to. -/
def Json.part? : PathSegment → Json → Option Json
  | .key name, value => value.member? name
  | .index index, .array items => items[index]?
  | .index _, _ => none

/-- The part of a value that a path leads to. -/
def Json.at? : List PathSegment → Json → Option Json
  | [], value => some value
  | segment :: rest, value => (value.part? segment).bind (Json.at? rest)

/-- The path of an error leads to a part of the value. -/
def Json.Locates (value : Json) (error : CoercionError) : Prop :=
  ∃ part, value.at? error.path = some part

section Paths

variable {registry : Registry} {value part : Json} {errors : List CoercionError}

theorem locates_of_here (h : ∀ error ∈ errors, error.path = []) :
    ∀ error ∈ errors, value.Locates error := by
  intro error hmem
  exact ⟨value, by rw [h error hmem, Json.at?]⟩

theorem locates_under {segment : PathSegment} (hpart : value.part? segment = some part)
    (h : ∀ error ∈ errors, part.Locates error) :
    ∀ error ∈ errors.map (·.under segment), value.Locates error := by
  intro error hmem
  obtain ⟨inner, hinner, rfl⟩ := List.mem_map.mp hmem
  obtain ⟨found, hfound⟩ := h inner hinner
  exact ⟨found, by simp [CoercionError.under, Json.at?, hpart, hfound]⟩

/-- **Errors are where they say.** The path of each error leads to a part of the value. -/
theorem locates_of_mem_faults (registry : Registry) (type : InputType) (value : Json) :
    ∀ error ∈ type.faults registry value, value.Locates error := by
  induction type, value using valueInduction registry with
  | null type => exact locates_of_here path_of_mem_faults_null
  | nonNull inner value hnull ih =>
    rw [faults_nonNull hnull]
    exact ih
  | reference name value hnull ih =>
    cases hget : registry.get? name with
    | none =>
      rw [faults_reference_none hnull hget]
      exact locates_of_here (by simp [CoercionError.here])
    | some type =>
      rw [faults_reference_some hnull hget]
      exact ih type hget
  | array item items ih =>
    intro error hmem
    rw [faults_array] at hmem
    obtain ⟨⟨faults, index⟩, hentry, hmem⟩ := List.mem_flatMap.mp hmem
    rw [List.mem_zipIdx_iff_getElem?, List.getElem?_map] at hentry
    obtain ⟨value, hvalue, rfl⟩ := Option.map_eq_some_iff.mp hentry
    have hpart : (Json.array items).part? (.index index) = some value := hvalue
    exact locates_under hpart (ih value (List.mem_of_getElem? hvalue)) error hmem
  | lone item value hnull harray ih =>
    rw [faults_lone hnull harray]
    exact ih
  | builtin scalar value hnull =>
    rw [faults_builtin hnull]
    exact locates_of_here Builtin.path_of_mem_faults
  | enum enum value hnull =>
    rw [faults_enum hnull]
    exact locates_of_here EnumType.path_of_mem_faults
  | object object members ih =>
    rw [faults_object, List.forall_mem_append]
    refine ⟨?_, locates_of_here ObjectType.path_of_mem_undeclaredFaults⟩
    intro error hmem
    obtain ⟨field, hfield, hmem⟩ := List.mem_flatMap.mp hmem
    unfold Field.faults at hmem
    split at hmem
    · rename_i value hlookup
      have hpart : (Json.object members).part? (.key field.name) = some value := hlookup
      exact locates_under hpart (ih field hfield value hlookup) error hmem
    · exact locates_of_here Field.path_of_mem_missing error hmem
  | other object value hnull hobject =>
    rw [faults_not_object hnull hobject]
    exact locates_of_here (by simp [CoercionError.here])
  | union union value hnull ih =>
    rw [faults_union hnull]
    split
    · exact locates_of_here (by simp [CoercionError.here])
    · exact locates_of_here UnionType.path_of_mem_refusal

end Paths

/-! ## What the check reports -/

/-- A scalar has at most one error. -/
theorem length_faults_le_one {registry : Registry} {value : Json} {type : NamedType}
    (h : type.kind = .scalar) : ((InputType.named type).faults registry value).length ≤ 1 := by
  by_cases hnull : value = .null
  · rw [hnull, faults_null rfl]
    exact Nat.zero_le 1
  cases type with
  | builtin scalar =>
    rw [faults_builtin hnull]
    unfold Builtin.faults
    split <;> simp
  | union union =>
    rw [faults_union hnull]
    split
    · simp
    · unfold UnionType.refusal
      split <;> simp
  | _ => simp [NamedType.kind] at h

/-- **What the check leaves on the trail.** Wherever it starts, it adds the errors of the value,
with the path to the value in front of each, and is back where it started. -/
theorem run_coerceAt (registry : Registry) (type : InputType) (value : Json) (trail : Trail) :
    ((type.coerceAt registry value).run trail).2 = trail.add (type.faults registry value) := by
  have hyields := coerceAt_yields registry type value
  have hreports := coerce_reports_faults registry type value
  generalize type.coerce registry value = outcome at hyields hreports
  cases hyields with
  | ok h =>
    rw [hreports.eq_ok_iff.mp ⟨_, rfl⟩, Trail.add_nil, h]
  | error hne h =>
    rw [← (hreports.eq_error_iff.mp rfl).1, h]

/-- **The errors of the check are complete, in order and where they say.** A check on a trail adds
the errors that `InputType.faults` lists, which puts them together from those of the parts, and
comes back to the part that it started from. So the check fails exactly with these errors, and
succeeds if there are none. A scalar has at most one. The errors under a member stay the same
whatever the other members are, and the path of each error leads to a part of the value. -/
theorem coerce_errors (registry : Registry) (type : InputType) (value : Json) :
    (∀ trail : Trail, ((type.coerceAt registry value).run trail).2 =
      { path := trail.path
        errors := trail.errors ++ ((type.faults registry value).map fun error =>
          { error with path := trail.path.toList ++ error.path }).toArray }) ∧
    (∀ errors, type.coerce registry value = .error errors ↔
      errors = type.faults registry value ∧ type.faults registry value ≠ []) ∧
    ((∃ out, type.coerce registry value = .ok out) ↔ type.faults registry value = []) ∧
    (∀ named, type = .named named → named.kind = .scalar →
      (type.faults registry value).length ≤ 1) ∧
    (∀ name value', value'.member? name = value.member? name →
      (type.faults registry value').filter (·.isUnder (.key name)) =
        (type.faults registry value).filter (·.isUnder (.key name))) ∧
    ∀ error ∈ type.faults registry value, value.Locates error := by
  have hreports := coerce_reports_faults registry type value
  refine ⟨run_coerceAt registry type value, fun errors => hreports.eq_error_iff,
    hreports.eq_ok_iff, ?_,
    fun name value' hmember => ?_, locates_of_mem_faults registry type value⟩
  · rintro named rfl hkind
    exact length_faults_le_one hkind
  · rw [filter_faults, filter_faults, hmember]

/-- People, who have a name and may have an age and friends. -/
def personRegistry : Registry :=
  ⟨Builtin.all.map .builtin ++ [.object ⟨"person", none,
    [⟨"name", .nonNull (.reference "String"), none, none⟩, ⟨"age", .reference "Int", none, none⟩,
      ⟨"friends", .list (.nonNull (.reference "person")), none, none⟩]⟩]⟩

/-- What is wrong with a person, at the root and as the third of some items. -/
theorem coerce_errors_person :
    let value : Json := .object [("age", .string "old"),
      ("friends", .array [.object [("name", .number (.integer 3))]]), ("saber", .string "blue")]
    (InputType.reference "person").coerce personRegistry value =
        .error [⟨[], .missingField "name" "String!"⟩,
          ⟨[.key "age"], .scalar "Int" (.notInteger "\"old\"")⟩,
          ⟨[.key "friends", .index 0, .key "name"], .scalar "String" (.mismatch .string "3")⟩,
          ⟨[], .undeclaredField "saber" "person"⟩] ∧
      (((InputType.reference "person").coerceAt personRegistry value).run ⟨#[.index 2], #[]⟩).2 =
        ⟨#[.index 2], #[⟨[.index 2], .missingField "name" "String!"⟩,
          ⟨[.index 2, .key "age"], .scalar "Int" (.notInteger "\"old\"")⟩,
          ⟨[.index 2, .key "friends", .index 0, .key "name"],
            .scalar "String" (.mismatch .string "3")⟩,
          ⟨[.index 2], .undeclaredField "saber" "person"⟩]⟩ := by
  intro value
  have hfaults : (InputType.reference "person").faults personRegistry value =
      [⟨[], .missingField "name" "String!"⟩,
        ⟨[.key "age"], .scalar "Int" (.notInteger "\"old\"")⟩,
        ⟨[.key "friends", .index 0, .key "name"], .scalar "String" (.mismatch .string "3")⟩,
        ⟨[], .undeclaredField "saber" "person"⟩] := by
    cbv
  obtain ⟨htrail, herrors, -⟩ := coerce_errors personRegistry (.reference "person") value
  refine ⟨(herrors _).mpr ⟨hfaults.symm, by simp [hfaults]⟩, ?_⟩
  rw [htrail, hfaults]
  rfl

end TaggedUnion
