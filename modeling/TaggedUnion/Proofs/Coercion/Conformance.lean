import TaggedUnion.Proofs.Coercion.Composition
import TaggedUnion.Proofs.Decimal.Int32
import TaggedUnion.Proofs.Union.Resolution

/-!
# Which values conform to a type

The check of runtime values against its specification. The check follows a value and a type
together and collects errors on its way; the specification says which values conform and what a type
makes of them, and knows no errors.

* `Builtin.Accepts`, `Builtin.normalized`: the values that a built-in scalar takes, and what it
  makes of them.
* `InputType.Conforms`: the values that conform to a type, as an inductive relation.
* `InputType.normalized`: what a type makes of a conforming value.
* `coerce_iff_conforms`: the check accepts exactly the conforming values and gives what the type
  makes of them.
-/

namespace TaggedUnion

/-! ## Built-in scalars -/

namespace Builtin

/-- The values that a built-in scalar takes. -/
def Accepts (value : Json) : Builtin → Prop
  | string => ∃ text, value = .string text
  -- A number counts by what it equals, whichever way it is held.
  | int => ∃ (n : Number) (i : Int), value = .number n ∧ n.value = i ∧ -2 ^ 31 ≤ i ∧ i < 2 ^ 31
  | float => ∃ n, value = .number n
  | boolean => ∃ b, value = .bool b
  | id => (∃ text, value = .string text) ∨ ∃ i, value = .number (.integer i)

/-- What a built-in scalar makes of a value that it takes: `Int` an integer, `ID` a string, and the
others leave it as it is. -/
def normalized (value : Json) : Builtin → Json
  | int =>
    match value with
    | .number n => .number (.integer n.value.num)
    | value => value
  | id =>
    match value with
    | .number (.integer i) => .string (intText i)
    | value => value
  | _ => value

theorem parseValue_eq_ok_iff {scalar : Builtin} {value out : Json} :
    scalar.parseValue value = .ok out ↔ scalar.Accepts value ∧ out = scalar.normalized value := by
  cases scalar with
  | int =>
    cases value with
    | number n =>
      have hint : intOfNumber n = .ok out ↔
          ∃ i, int32? n = some i ∧ out = .number (.integer i) := by
        unfold intOfNumber
        cases int32? n <;> cases n <;> simp [eq_comm]
      simp only [parseValue, hint, int32?_eq_some_iff, Accepts, normalized]
      grind [Rat.num_intCast]
    | _ => simp [parseValue, Accepts]
  | id =>
    cases value with
    | number n => cases n <;> simp [parseValue, Accepts, normalized, eq_comm]
    | _ => simp [parseValue, Accepts, normalized, eq_comm]
  | _ => cases value <;> simp [parseValue, Accepts, normalized, eq_comm]

end Builtin

/-! ## Conformance -/

/-- The values that conform to a type. -/
inductive InputType.Conforms (registry : Registry) : InputType → Json → Prop where
  | null {type : InputType} (hnull : type.isNonNull = false) : Conforms registry type .null
  | nonNull {inner : InputType} {value : Json} (hvalue : value ≠ .null)
    (hinner : Conforms registry inner value) : Conforms registry (.nonNull inner) value
  | reference {name : String} {type : NamedType} {value : Json}
    (hget : registry.get? name = some type) (htype : Conforms registry (.named type) value) :
    Conforms registry (.reference name) value
  | items {item : InputType} {items : List Json}
    (hitems : ∀ value ∈ items, Conforms registry item value) :
    Conforms registry (.list item) (.array items)
  /-- A lone item stands for a list of one. -/
  | lone {item : InputType} {value : Json} (harray : ∀ items, value ≠ .array items)
    (hitem : Conforms registry item value) : Conforms registry (.list item) value
  /-- Only declared members may be given, and only fields that have a default or admit null may be
  left out. -/
  | object {object : ObjectType} {members : List (String × Json)}
    (hdeclared : ∀ member ∈ members, ∃ field ∈ object.fields, field.name = member.1)
    (hgiven : ∀ field ∈ object.fields, ∀ value, members.lookup field.name = some value →
      Conforms registry field.type value)
    (habsent : ∀ field ∈ object.fields, members.lookup field.name = none →
      field.default?.isSome ∨ field.type.isNonNull = false) :
    Conforms registry (.named (.object object)) (.object members)
  | enum {enum : EnumType} {name : String} (hname : name ∈ enum.values) :
    Conforms registry (.named (.enum enum)) (.string name)
  | builtin {scalar : Builtin} {value : Json} (haccepts : scalar.Accepts value) :
    Conforms registry (.named (.builtin scalar)) value
  /-- The key that is read from the value has to lead to a candidate, wrapped or not. -/
  | union {union : UnionType} {value : Json} {key : String} {type : NamedType}
    (hkey : union.ReadsKey value key) (hfind : union.lookup.Finds key type)
    (htype : Conforms registry (.named type) value) :
    Conforms registry (.named (.union union)) value

/-- Whether the members of a value have what a declared field asks for. -/
def FieldConforms (registry : Registry) (members : List (String × Json)) (field : Field) : Prop :=
  (∀ value, members.lookup field.name = some value → field.type.Conforms registry value) ∧
    (members.lookup field.name = none → field.default?.isSome ∨ field.type.isNonNull = false)

/-- What a type makes of a conforming value: a lone item becomes a list of one, and an object has
its declared fields in order, with the defaults of those left out. Enums and unions keep the
value. -/
def InputType.normalized (registry : Registry) (value : Json) (type : InputType) : Json :=
  match type with
  | .nonNull inner => inner.normalized registry value
  | .reference name =>
    match registry.get? name with
    | some type => (InputType.named type).normalized registry value
    | none => value
  | .list item =>
    match value with
    | .null => .null
    | .array items => .array (items.map fun value => item.normalized registry value)
    | lone => .array [item.normalized registry lone]
  | .named (.builtin scalar) => scalar.normalized value
  | .named (.object object) =>
    match value with
    | .object members =>
      .object (object.fields.filterMap fun field =>
        match h : members.lookup field.name with
        | some value =>
          have := sizeOf_lt_of_lookup h
          some (field.name, field.type.normalized registry value)
        | none => field.default?.map fun value => (field.name, value))
    | value => value
  | .named (.enum _) => value
  | .named (.union _) => value
termination_by (sizeOf value, type)
decreasing_by
  · exact .right _ .inner
  · exact .right _ .target
  · exact .left _ _ (by simp; have := List.sizeOf_lt_of_mem ‹_ ∈ items›; omega)
  · exact .right _ .item
  · exact .left _ _ (by simp; omega)

/-- What becomes of a declared field: the member made of the given one, or its default. -/
def normalizedField (registry : Registry) (members : List (String × Json)) (field : Field) :
    Option (String × Json) :=
  match members.lookup field.name with
  | some value => some (field.name, field.type.normalized registry value)
  | none => field.default?.map fun value => (field.name, value)

section

variable {registry : Registry} {value out : Json}

theorem normalized_named_null (type : NamedType) :
    (InputType.named type).normalized registry .null = .null := by
  rw [InputType.normalized.eq_def]
  cases type with
  | builtin scalar => cases scalar <;> rfl
  | _ => rfl

/-- Null stays null under any type. -/
theorem normalized_null : ∀ type : InputType, type.normalized registry .null = .null
  | .named type => normalized_named_null type
  | .list item => by rw [InputType.normalized.eq_def]
  | .nonNull inner => by
    rw [InputType.normalized.eq_def]
    exact normalized_null inner
  | .reference name => by
    rw [InputType.normalized.eq_def]
    cases hget : registry.get? name with
    | none => simp [hget]
    | some type => simpa [hget] using normalized_named_null type

theorem normalized_nonNull {inner : InputType} :
    (InputType.nonNull inner).normalized registry value = inner.normalized registry value := by
  rw [InputType.normalized.eq_def]

theorem normalized_reference {name : String} {type : NamedType}
    (hget : registry.get? name = some type) :
    (InputType.reference name).normalized registry value =
      (InputType.named type).normalized registry value := by
  rw [InputType.normalized.eq_def]
  simp [hget]

theorem normalized_array {item : InputType} {items : List Json} :
    (InputType.list item).normalized registry (.array items) =
      .array (items.map fun value => item.normalized registry value) := by
  rw [InputType.normalized.eq_def]

theorem normalized_lone {item : InputType} (hnull : value ≠ .null)
    (harray : ∀ items, value ≠ .array items) :
    (InputType.list item).normalized registry value = .array [item.normalized registry value] := by
  rw [InputType.normalized.eq_def]
  cases value <;> simp_all

theorem normalized_object {object : ObjectType} {members : List (String × Json)} :
    (InputType.named (.object object)).normalized registry (.object members) =
      .object (object.fields.filterMap (normalizedField registry members)) := by
  rw [InputType.normalized.eq_def]
  simp only [Json.object.injEq]
  congr 1
  funext field
  unfold normalizedField
  split
  · rename_i hlookup
    simp only [hlookup]
  · rename_i hlookup
    simp only [hlookup]

/-- A field is accepted if the given value conforms, or if it may be left out. -/
theorem coerceField_eq_ok_iff {members out : List (String × Json)} {field : Field}
    (hgiven : ∀ value, members.lookup field.name = some value → ∀ out,
      field.type.coerce registry value = .ok out ↔
        field.type.Conforms registry value ∧ out = field.type.normalized registry value) :
    coerceField registry members field = .ok out ↔
      FieldConforms registry members field ∧
        out = (normalizedField registry members field).toList := by
  unfold coerceField FieldConforms normalizedField
  cases hlookup : members.lookup field.name with
  | some value =>
    simp only [Checked.under_eq_ok, map_eq_ok, hgiven value hlookup]
    grind
  | none =>
    unfold absentField
    cases field.default? with
    | some value =>
      simp only [Except.ok.injEq]
      grind
    | none =>
      cases hnonNull : field.type.isNonNull with
      | true => simp
      | false =>
        simp only [Bool.false_eq_true, ↓reduceIte, Except.ok.injEq]
        grind

/-! ## What conformance to each type says -/

theorem conforms_nonNull_iff {inner : InputType} :
    (InputType.nonNull inner).Conforms registry value ↔
      value ≠ .null ∧ inner.Conforms registry value := by
  constructor
  · intro h
    cases h with
    | null h => simp [InputType.isNonNull] at h
    | nonNull hvalue hinner => exact ⟨hvalue, hinner⟩
  · rintro ⟨hvalue, hinner⟩
    exact .nonNull hvalue hinner

theorem conforms_reference_iff {name : String} (hnull : value ≠ .null) :
    (InputType.reference name).Conforms registry value ↔
      ∃ type, registry.get? name = some type ∧ (InputType.named type).Conforms registry value := by
  constructor
  · intro h
    cases h with
    | null => exact absurd rfl hnull
    | reference hget htype => exact ⟨_, hget, htype⟩
  · rintro ⟨type, hget, htype⟩
    exact .reference hget htype

theorem conforms_array_iff {item : InputType} {items : List Json} :
    (InputType.list item).Conforms registry (.array items) ↔
      ∀ value ∈ items, item.Conforms registry value := by
  constructor
  · intro h
    cases h with
    | items hitems => exact hitems
    | lone harray => exact absurd rfl (harray items)
  · exact .items

theorem conforms_lone_iff {item : InputType} (hnull : value ≠ .null)
    (harray : ∀ items, value ≠ .array items) :
    (InputType.list item).Conforms registry value ↔ item.Conforms registry value := by
  constructor
  · intro h
    cases h with
    | null => exact absurd rfl hnull
    | items => exact absurd rfl (harray _)
    | lone _ hitem => exact hitem
  · exact .lone harray

theorem conforms_builtin_iff {scalar : Builtin} (hnull : value ≠ .null) :
    (InputType.named (.builtin scalar)).Conforms registry value ↔ scalar.Accepts value := by
  constructor
  · intro h
    cases h with
    | null => exact absurd rfl hnull
    | builtin haccepts => exact haccepts
  · exact .builtin

theorem conforms_enum_iff {enum : EnumType} (hnull : value ≠ .null) :
    (InputType.named (.enum enum)).Conforms registry value ↔
      ∃ name ∈ enum.values, value = .string name := by
  constructor
  · intro h
    cases h with
    | null => exact absurd rfl hnull
    | enum hname => exact ⟨_, hname, rfl⟩
  · rintro ⟨name, hname, rfl⟩
    exact .enum hname

theorem conforms_object_iff {object : ObjectType} {members : List (String × Json)} :
    (InputType.named (.object object)).Conforms registry (.object members) ↔
      (∀ member ∈ members, ∃ field ∈ object.fields, field.name = member.1) ∧
        ∀ field ∈ object.fields, FieldConforms registry members field := by
  constructor
  · intro h
    cases h with
    | object hdeclared hgiven habsent =>
      exact ⟨hdeclared, fun field hmem => ⟨hgiven field hmem, habsent field hmem⟩⟩
  · rintro ⟨hdeclared, hfields⟩
    exact .object hdeclared (fun field hmem => (hfields field hmem).1)
      fun field hmem => (hfields field hmem).2

theorem not_conforms_object {object : ObjectType} (hnull : value ≠ .null)
    (hobject : ∀ members, value ≠ .object members) :
    ¬(InputType.named (.object object)).Conforms registry value := by
  intro h
  cases h with
  | null => exact hnull rfl
  | object => exact hobject _ rfl

theorem conforms_union_iff {union : UnionType} (hnull : value ≠ .null) :
    (InputType.named (.union union)).Conforms registry value ↔
      ∃ type, union.typeOfValue value = .ok type ∧
        (InputType.named type).Conforms registry value := by
  simp only [typeOfValue_eq_ok_iff]
  constructor
  · intro h
    cases h with
    | null => exact absurd rfl hnull
    | union hkey hfind htype => exact ⟨_, ⟨_, hkey, hfind⟩, htype⟩
  · rintro ⟨type, ⟨key, hkey, hfind⟩, htype⟩
    exact .union hkey hfind htype

/-- **The check of runtime values.** A type accepts the values that conform to it, and makes of them
what is said apart from the check. -/
theorem coerce_eq_ok_iff (registry : Registry) (type : InputType) (value : Json) :
    ∀ out, type.coerce registry value = .ok out ↔
      type.Conforms registry value ∧ out = type.normalized registry value := by
  induction type, value using valueInduction registry with
  | null type =>
    intro out
    rw [normalized_null]
    cases type with
    | nonNull inner => simp [coerce_null_nonNull, conforms_nonNull_iff]
    | _ =>
      rw [coerce_null rfl, Except.ok.injEq]
      exact ⟨fun h => ⟨.null rfl, h.symm⟩, fun h => h.2.symm⟩
  | nonNull inner value hnull ih =>
    intro out
    rw [coerce_nonNull hnull, ih, conforms_nonNull_iff, normalized_nonNull]
    simp [hnull]
  | reference name value hnull ih =>
    intro out
    rw [conforms_reference_iff hnull]
    cases hget : registry.get? name with
    | none => simp [coerce_reference_none hnull hget]
    | some type =>
      rw [coerce_reference_some hnull hget, ih type hget, normalized_reference hget]
      simp
  | array item items ih =>
    intro out
    rw [coerce_array, map_eq_ok, conforms_array_iff, normalized_array]
    simp only [coerceItems_eq_ok_iff ih]
    grind
  | lone item value hnull harray ih =>
    intro out
    rw [coerce_lone hnull harray, map_eq_ok, conforms_lone_iff hnull harray,
      normalized_lone hnull harray]
    simp only [ih]
    grind
  | builtin scalar value hnull =>
    intro out
    rw [coerce_builtin hnull, conforms_builtin_iff hnull, InputType.normalized.eq_def,
      mapError_eq_ok, Builtin.parseValue_eq_ok_iff]
  | enum enum value hnull =>
    intro out
    rw [coerce_enum hnull, conforms_enum_iff hnull, InputType.normalized.eq_def]
    unfold EnumType.coerce
    cases value with
    | string name =>
      by_cases hname : name ∈ enum.values
      · simp [hname, eq_comm]
      · simp [hname]
    | _ => simp
  | object object members ih =>
    intro out
    rw [coerce_object, Checked.both_eq_ok, conforms_object_iff, normalized_object]
    simp only [undeclared_eq_ok_iff,
      coerceFields_eq_ok_iff fun field hmem _ => coerceField_eq_ok_iff (ih field hmem)]
    grind
  | other object value hnull hobject =>
    intro out
    simp [coerce_not_object hnull hobject, not_conforms_object hnull hobject]
  | union union value hnull ih =>
    intro out
    rw [coerce_union hnull, conforms_union_iff hnull, InputType.normalized.eq_def,
      mapError_eq_ok, parseValue_eq_ok_iff]
    refine and_congr_left fun _ => exists_congr fun type => ?_
    constructor
    · rintro ⟨out, htype, hout⟩
      exact ⟨htype, ((ih type htype out).mp hout).1⟩
    · rintro ⟨htype, hconforms⟩
      exact ⟨_, htype, (ih type htype _).mpr ⟨hconforms, rfl⟩⟩

end

/-- **Soundness and completeness of the check.** A check succeeds exactly on the values that conform
to the type, and what it gives is what the type makes of them. -/
theorem coerce_iff_conforms (registry : Registry) (type : InputType) (value : Json) :
    ((∃ out, type.coerce registry value = .ok out) ↔ type.Conforms registry value) ∧
      ∀ out, type.coerce registry value = .ok out → out = type.normalized registry value := by
  have hcheck := coerce_eq_ok_iff registry type value
  refine ⟨⟨fun ⟨out, hout⟩ => ((hcheck out).mp hout).1, fun hconforms => ?_⟩, fun out hout => ?_⟩
  · exact ⟨type.normalized registry value, (hcheck _).mpr ⟨hconforms, rfl⟩⟩
  · exact ((hcheck out).mp hout).2

end TaggedUnion
