import TaggedUnion.Proofs.Coercion.Trail
import TaggedUnion.Proofs.Coercion.ValueInduction

/-!
# The check, put together from outcomes

The check of runtime values takes one trail through items, members and candidates. Here it is put
together from the outcomes of its parts instead, and both are the same. Later proofs use these
equations, one for each shape of type and value, and do not look at trails.

* `coerceItems`, `coerceFields`, `undeclared`: items and members, put together from outcomes.
* `coerceAt_yields`: the check of a value as a part of a greater one.
* `coerce_null` ... `coerce_union`: the equations of the check.
* `coerceItems_eq_ok_iff`, `coerceFields_eq_ok_iff`: items and fields are accepted one by one.
-/

namespace TaggedUnion

/-! ## Outcomes of parts -/

/-- Checks a value against an enum type: it has to be one of the values. -/
def EnumType.coerce (value : Json) (enum : EnumType) : Checked Json :=
  match value with
  | .string name =>
    if name ∈ enum.values then .ok value else Checked.refuse (.notInEnum value.compact enum.name)
  | _ => Checked.refuse (.notInEnum value.compact enum.name)

/-- The error for each member that the object type does not declare. -/
def undeclared (object : ObjectType) (members : List (String × Json)) : Checked Unit :=
  let names := (members.map Prod.fst).filter fun name => (object.field? name).isNone
  if names.isEmpty then .ok ()
  else .error (names.map fun name => .here (.undeclaredField name object.name))

/-- What becomes of a field that is left out: its default, or nothing unless it has to be given. -/
def absentField (field : Field) : Checked (List (String × Json)) :=
  match field.default? with
  | some value => .ok [(field.name, value)]
  | none =>
    if field.type.isNonNull then Checked.refuse (.missingField field.name field.type.text)
    else .ok []

/-- The outcome of items from an index on. -/
def coerceItems (registry : Registry) (item : InputType) (index : Nat) :
    List Json → Checked (List Json)
  | [] => .ok []
  | value :: rest =>
    Checked.both (· :: ·) (Checked.under (.index index) (item.coerce registry value))
      (coerceItems registry item (index + 1) rest)

/-- What the check makes of one declared field, given the members of the value. -/
def coerceField (registry : Registry) (members : List (String × Json)) (field : Field) :
    Checked (List (String × Json)) :=
  match members.lookup field.name with
  | some value =>
    Checked.under (.key field.name)
      ((field.type.coerce registry value).map fun value => [(field.name, value)])
  | none => absentField field

/-- The outcome of members under declared fields, in the order of declaration. -/
def coerceFields (registry : Registry) (members : List (String × Json)) :
    List Field → Checked (List (String × Json))
  | [] => .ok []
  | field :: rest =>
    Checked.both (· ++ ·) (coerceField registry members field)
      (coerceFields registry members rest)

/-! ## The check along a trail -/

section Parts

open Trail

variable {registry : Registry} {value : Json}

theorem EnumType.yields_coerceAt {enum : EnumType} :
    Yields (enum.coerceAt value) (enum.coerce value) := by
  unfold coerceAt coerce
  cases value with
  | string name =>
    by_cases hmem : name ∈ enum.values
    · simp only [hmem, ↓reduceIte]
      exact yields_pure _
    · simp only [hmem, ↓reduceIte]
      exact yields_refuse _
  | _ => exact yields_refuse _

theorem yields_leaveOut {field : Field} : Yields field.leaveOut (absentField field) := by
  unfold Field.leaveOut absentField
  cases field.default? with
  | some value => exact yields_pure _
  | none =>
    cases field.type.isNonNull with
    | true => exact (yields_report _).map fun _ => []
    | false => exact yields_pure _

theorem undeclared_cons {object : ObjectType} {member : String × Json}
    {members : List (String × Json)} : undeclared object (member :: members) =
      if (object.field? member.1).isSome then undeclared object members
      else Checked.both (fun (_ : Unit) u => u)
        (Checked.refuse (.undeclaredField member.1 object.name)) (undeclared object members) := by
  unfold undeclared
  cases hfield : object.field? member.1 with
  | some field =>
    simp only [List.map_cons, List.filter_cons, hfield, Option.isNone_some, Option.isSome_some,
      ↓reduceIte, Bool.false_eq_true]
  | none =>
    simp only [List.map_cons, List.filter_cons, hfield, Option.isNone_none, Option.isSome_none,
      ↓reduceIte, Bool.false_eq_true]
    generalize (members.map Prod.fst).filter _ = names
    cases names <;> rfl

theorem yields_reportUndeclared {object : ObjectType} {members : List (String × Json)} :
    Yields (object.reportUndeclared members) (undeclared object members) := by
  unfold ObjectType.reportUndeclared
  induction members with
  | nil => exact yields_pure _
  | cons member rest ih =>
    rw [List.forM_cons, undeclared_cons]
    cases object.field? member.1 with
    | some field => exact ih
    | none => simpa using (yields_report _).both (fun _ u => u) ih

theorem yields_coerceItemsAt {item : InputType} {items : List Json}
    (h : ∀ value ∈ items, Yields (item.coerceAt registry value) (item.coerce registry value))
    (index : Nat) :
    Yields (coerceItemsAt registry item index items) (coerceItems registry item index items) := by
  induction items generalizing index with
  | nil =>
    rw [coerceItemsAt.eq_def]
    exact yields_pure []
  | cons value rest ih =>
    obtain ⟨hvalue, hrest⟩ := List.forall_mem_cons.mp h
    rw [coerceItemsAt.eq_def]
    exact hvalue.part (· :: ·) (.index index) (ih hrest (index + 1))

theorem yields_coerceFieldsAt {members : List (String × Json)} {fields : List Field}
    (h : ∀ field ∈ fields, ∀ value, members.lookup field.name = some value →
      Yields (field.type.coerceAt registry value) (field.type.coerce registry value)) :
    Yields (coerceFieldsAt registry members fields) (coerceFields registry members fields) := by
  induction fields with
  | nil =>
    rw [coerceFieldsAt.eq_def]
    exact yields_pure []
  | cons field rest ih =>
    obtain ⟨hfield, hrest⟩ := List.forall_mem_cons.mp h
    rw [coerceFieldsAt.eq_def, coerceFields, coerceField]
    simp only []
    split
    · rename_i value hlookup
      simp only [hlookup]
      rw [Checked.under_map, Checked.both_map_left]
      exact (hfield value hlookup).part (fun result others => (field.name, result) :: others)
        (.key field.name) (ih hrest)
    · rename_i hlookup
      simp only [hlookup]
      exact yields_leaveOut.both (· ++ ·) (ih hrest)

/-! ### Types by shape -/

theorem coerceAt_named {type : NamedType} :
    (InputType.named type).coerceAt registry value = type.coerceAt registry value := by
  rw [InputType.coerceAt.eq_def]

theorem yields_null_nonNull {inner : InputType} :
    Yields ((InputType.nonNull inner).coerceAt registry .null)
      (Checked.refuse (.nullForNonNull (InputType.nonNull inner).text)) := by
  rw [InputType.coerceAt.eq_def]
  exact yields_refuse _

theorem yields_null {type : InputType} (h : type.isNonNull = false) :
    Yields (type.coerceAt registry .null) (.ok .null) := by
  cases type with
  | named type =>
    rw [coerceAt_named, NamedType.coerceAt.eq_def]
    exact yields_pure _
  | nonNull inner => cases h
  | _ =>
    rw [InputType.coerceAt.eq_def]
    exact yields_pure _

theorem coerceAt_nonNull {inner : InputType} (h : value ≠ .null) :
    (InputType.nonNull inner).coerceAt registry value = inner.coerceAt registry value := by
  rw [InputType.coerceAt.eq_def]
  simp [h]

theorem coerceAt_reference_some {name : String} {type : NamedType} (h : value ≠ .null)
    (hget : registry.get? name = some type) :
    (InputType.reference name).coerceAt registry value =
      (InputType.named type).coerceAt registry value := by
  rw [InputType.coerceAt.eq_def, coerceAt_named]
  simp [h, hget]

theorem yields_reference_none {name : String} (h : value ≠ .null)
    (hget : registry.get? name = none) :
    Yields ((InputType.reference name).coerceAt registry value)
      (Checked.refuse (.unknownType name)) := by
  rw [InputType.coerceAt.eq_def]
  simp only [Json.isNull_eq_true, h, ↓reduceIte, hget]
  exact yields_refuse _

theorem yields_array {item : InputType} {items : List Json}
    (h : ∀ value ∈ items, Yields (item.coerceAt registry value) (item.coerce registry value)) :
    Yields ((InputType.list item).coerceAt registry (.array items))
      ((coerceItems registry item 0 items).map .array) := by
  rw [InputType.coerceAt.eq_def]
  exact (yields_coerceItemsAt h 0).map Json.array

theorem yields_lone {item : InputType} (hnull : value ≠ .null)
    (harray : ∀ items, value ≠ .array items)
    (h : Yields (item.coerceAt registry value) (item.coerce registry value)) :
    Yields ((InputType.list item).coerceAt registry value)
      ((item.coerce registry value).map fun value => .array [value]) := by
  have hlone : (InputType.list item).coerceAt registry value =
      item.coerceAt registry value >>= fun value => pure (.array [value]) := by
    rw [InputType.coerceAt.eq_def]
    cases value <;> simp_all
  rw [hlone]
  exact h.map _

theorem yields_builtin {scalar : Builtin} (h : value ≠ .null) :
    Yields ((InputType.named (.builtin scalar)).coerceAt registry value)
      ((scalar.parseValue value).mapError fun error => [.here (.scalar scalar.name error)]) := by
  rw [coerceAt_named, NamedType.coerceAt.eq_def]
  simp only [Json.isNull_eq_true, h, ↓reduceIte]
  cases scalar.parseValue value with
  | ok out => exact yields_pure out
  | error error => exact yields_refuse _

theorem yields_enum {enum : EnumType} (h : value ≠ .null) :
    Yields ((InputType.named (.enum enum)).coerceAt registry value) (enum.coerce value) := by
  rw [coerceAt_named, NamedType.coerceAt.eq_def]
  simp only [Json.isNull_eq_true, h, ↓reduceIte]
  exact enum.yields_coerceAt

theorem yields_object {object : ObjectType} {members : List (String × Json)}
    (h : ∀ field ∈ object.fields, ∀ value, members.lookup field.name = some value →
      Yields (field.type.coerceAt registry value) (field.type.coerce registry value)) :
    Yields ((InputType.named (.object object)).coerceAt registry (.object members))
      (Checked.both (fun fields _ => .object fields)
        (coerceFields registry members object.fields) (undeclared object members)) := by
  rw [coerceAt_named, NamedType.coerceAt.eq_def]
  exact (yields_coerceFieldsAt h).both (fun fields _ => Json.object fields) yields_reportUndeclared

theorem yields_not_object {object : ObjectType} (h : value ≠ .null)
    (hobject : ∀ members, value ≠ .object members) :
    Yields ((InputType.named (.object object)).coerceAt registry value)
      (Checked.refuse (.notAnObject object.name)) := by
  have hrefuse : (InputType.named (.object object)).coerceAt registry value =
      refuse (.notAnObject object.name) := by
    rw [coerceAt_named, NamedType.coerceAt.eq_def]
    cases value <;> simp_all
  rw [hrefuse]
  exact yields_refuse _

theorem yields_union {union : UnionType} (h : value ≠ .null) :
    Yields ((InputType.named (.union union)).coerceAt registry value)
      ((union.parseValue registry value).mapError fun error =>
        [.here (.scalar union.name (.union error))]) := by
  rw [coerceAt_named, NamedType.coerceAt.eq_def]
  simp only [Json.isNull_eq_true, h, ↓reduceIte]
  cases union.parseValue registry value with
  | ok out => exact yields_pure out
  | error error => exact yields_refuse _

/-- **The check of a part.** Wherever a value stands in a greater one, its check comes to the
outcome that the value has by itself: it adds the errors of the value, with the path to it in front,
and leaves the path as it was. -/
theorem coerceAt_yields (registry : Registry) (type : InputType) (value : Json) :
    Yields (type.coerceAt registry value) (type.coerce registry value) := by
  have self : ∀ {type : InputType} {value : Json} {outcome : Checked Json},
      Yields (type.coerceAt registry value) outcome →
        Yields (type.coerceAt registry value) (type.coerce registry value) := by
    intro type value outcome h
    rw [InputType.coerce, h.outcome_eq]
    exact h
  induction type, value using valueInduction registry with
  | null type =>
    cases type with
    | nonNull inner => exact self yields_null_nonNull
    | _ => exact self (yields_null rfl)
  | nonNull inner value hnull ih => exact self (coerceAt_nonNull hnull ▸ ih)
  | reference name value hnull ih =>
    cases hget : registry.get? name with
    | none => exact self (yields_reference_none hnull hget)
    | some type => exact self (coerceAt_reference_some hnull hget ▸ ih type hget)
  | array item items ih => exact self (yields_array ih)
  | lone item value hnull harray ih => exact self (yields_lone hnull harray ih)
  | builtin scalar value hnull => exact self (yields_builtin hnull)
  | enum enum value hnull => exact self (yields_enum hnull)
  | object object members ih => exact self (yields_object ih)
  | other object value hnull hobject => exact self (yields_not_object hnull hobject)
  | union union value hnull => exact self (yields_union hnull)

end Parts

/-! ## Equations -/

section Equations

variable {registry : Registry} {value : Json}

@[simp] theorem coerce_null_nonNull {inner : InputType} :
    (InputType.nonNull inner).coerce registry .null =
      Checked.refuse (.nullForNonNull (InputType.nonNull inner).text) :=
  yields_null_nonNull.outcome_eq

theorem coerce_null {type : InputType} (h : type.isNonNull = false) :
    type.coerce registry .null = .ok .null :=
  (yields_null h).outcome_eq

theorem coerce_nonNull {inner : InputType} (h : value ≠ .null) :
    (InputType.nonNull inner).coerce registry value = inner.coerce registry value :=
  congrArg Trail.outcome (coerceAt_nonNull h)

theorem coerce_reference_some {name : String} {type : NamedType} (h : value ≠ .null)
    (hget : registry.get? name = some type) :
    (InputType.reference name).coerce registry value =
      (InputType.named type).coerce registry value :=
  congrArg Trail.outcome (coerceAt_reference_some h hget)

theorem coerce_reference_none {name : String} (h : value ≠ .null)
    (hget : registry.get? name = none) :
    (InputType.reference name).coerce registry value = Checked.refuse (.unknownType name) :=
  (yields_reference_none h hget).outcome_eq

theorem coerce_array {item : InputType} {items : List Json} :
    (InputType.list item).coerce registry (.array items) =
      (coerceItems registry item 0 items).map .array :=
  (yields_array fun value _ => coerceAt_yields registry item value).outcome_eq

theorem coerce_lone {item : InputType} (h : value ≠ .null)
    (harray : ∀ items, value ≠ .array items) :
    (InputType.list item).coerce registry value =
      (item.coerce registry value).map fun value => .array [value] :=
  (yields_lone h harray (coerceAt_yields registry item value)).outcome_eq

theorem coerce_builtin {scalar : Builtin} (h : value ≠ .null) :
    (InputType.named (.builtin scalar)).coerce registry value =
      (scalar.parseValue value).mapError fun error => [.here (.scalar scalar.name error)] :=
  (yields_builtin h).outcome_eq

theorem coerce_enum {enum : EnumType} (h : value ≠ .null) :
    (InputType.named (.enum enum)).coerce registry value = enum.coerce value :=
  (yields_enum h).outcome_eq

theorem coerce_object {object : ObjectType} {members : List (String × Json)} :
    (InputType.named (.object object)).coerce registry (.object members) =
      Checked.both (fun fields _ => .object fields)
        (coerceFields registry members object.fields) (undeclared object members) :=
  (yields_object fun field _ value _ => coerceAt_yields registry field.type value).outcome_eq

/-- There is no complaint if every member is declared. -/
theorem undeclared_eq_ok_iff {object : ObjectType} {members : List (String × Json)} {u : Unit} :
    undeclared object members = .ok u ↔
      ∀ member ∈ members, ∃ field ∈ object.fields, field.name = member.1 := by
  have hnames : ((members.map Prod.fst).filter fun name => (object.field? name).isNone) = [] ↔
      ∀ member ∈ members, ∃ field ∈ object.fields, field.name = member.1 := by
    simp [ObjectType.field?]
  rw [← hnames, undeclared]
  generalize (members.map Prod.fst).filter _ = names
  cases names <;> simp

theorem coerce_not_object {object : ObjectType} (h : value ≠ .null)
    (hobject : ∀ members, value ≠ .object members) :
    (InputType.named (.object object)).coerce registry value =
      Checked.refuse (.notAnObject object.name) :=
  (yields_not_object h hobject).outcome_eq

theorem coerce_union {union : UnionType} (h : value ≠ .null) :
    (InputType.named (.union union)).coerce registry value =
      (union.parseValue registry value).mapError fun error =>
        [.here (.scalar union.name (.union error))] :=
  (yields_union h).outcome_eq

theorem parseValue_of_typeOfValue_error {union : UnionType} {error : UnionError}
    (h : union.typeOfValue value = .error error) :
    union.parseValue registry value = .error error := by
  rw [UnionType.parseValue.eq_def]
  split <;> simp_all

theorem parseValue_of_typeOfValue {union : UnionType} {type : NamedType}
    (h : union.typeOfValue value = .ok type) : union.parseValue registry value =
      gate union.name type.name value ((InputType.named type).coerce registry value) := by
  rw [UnionType.parseValue.eq_def, InputType.coerce, coerceAt_named]
  split <;> simp_all

theorem gate_eq_ok {union typeText : String} {value result : Json} {outcome : Checked Json} :
    gate union typeText value outcome = .ok result ↔
      (∃ out, outcome = .ok out) ∧ result = value := by
  cases outcome <;> simp [gate, eq_comm]

/-- A union accepts a value if the candidate that the value names does, and keeps the value. -/
theorem parseValue_eq_ok_iff {union : UnionType} {result : Json} :
    union.parseValue registry value = .ok result ↔
      (∃ type out, union.typeOfValue value = .ok type ∧
        (InputType.named type).coerce registry value = .ok out) ∧ result = value := by
  cases htype : union.typeOfValue value with
  | error error => simp [parseValue_of_typeOfValue_error htype]
  | ok type => simp [parseValue_of_typeOfValue htype, gate_eq_ok]

/-- Items are accepted if each one is, whatever that takes, and are made into what each one is made
into. -/
theorem coerceItems_eq_ok_iff {item : InputType} {items outs : List Json} {p : Json → Prop}
    {f : Json → Json} (hitem : ∀ value ∈ items, ∀ out,
      item.coerce registry value = .ok out ↔ p value ∧ out = f value) {index : Nat} :
    coerceItems registry item index items = .ok outs ↔
      (∀ value ∈ items, p value) ∧ outs = items.map f := by
  induction items generalizing index outs with
  | nil =>
    simp [coerceItems, eq_comm]
  | cons value rest ih =>
    simp only [List.mem_cons, forall_eq_or_imp] at hitem
    simp only [coerceItems, Checked.both_eq_ok, Checked.under_eq_ok, hitem.1, ih hitem.2]
    grind

theorem coerceFields_cons {members : List (String × Json)} {field : Field} {rest : List Field} :
    coerceFields registry members (field :: rest) =
      Checked.both (· ++ ·) (coerceField registry members field)
        (coerceFields registry members rest) := rfl

/-- Fields are accepted if each one is, whatever that takes, and the members made of them are put
together in order. -/
theorem coerceFields_eq_ok_iff {members out : List (String × Json)} {fields : List Field}
    {p : Field → Prop} {f : Field → Option (String × Json)}
    (hfield : ∀ field ∈ fields, ∀ out,
      coerceField registry members field = .ok out ↔ p field ∧ out = (f field).toList) :
    coerceFields registry members fields = .ok out ↔
      (∀ field ∈ fields, p field) ∧ out = fields.filterMap f := by
  induction fields generalizing out with
  | nil =>
    simp [coerceFields, eq_comm]
  | cons field rest ih =>
    simp only [List.mem_cons, forall_eq_or_imp] at hfield
    simp only [coerceFields_cons, Checked.both_eq_ok, hfield.1, ih hfield.2, List.filterMap_cons]
    cases f field <;> grind

end Equations

end TaggedUnion
