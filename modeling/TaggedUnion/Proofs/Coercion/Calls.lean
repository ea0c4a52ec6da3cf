import TaggedUnion.Proofs.Coercion.Composition
import TaggedUnion.Proofs.InputType.Size

/-!
# Calls on one value

A type may lead back to itself through the registry, and a check may look at one value under many
types before it goes to the parts of the value. This file counts those calls: `coerceAtWithin` is
the check with a number of calls to spend on one value, and it ends without a look at any type. The
number starts anew with each item and each member, and only there. It need not be more than
`callLimit`, which the sizes of the type and of the registered types give.

* `InputType.callBound`: the calls that a type of some size takes on one value.
* `InputType.coerceAtWithin`, `UnionType.parseValueWithin`: the check within a limit of calls.
* `coerceAtWithin_eq`: with as many calls as the bound says, the check runs as without a limit.
-/

namespace TaggedUnion

/-- The calls on one value that a type of some size takes at most: a union takes two, and a
reference opens a registered type. -/
def InputType.callBound (registrySize size : Nat) : InputType → Nat
  | .named _ => 2 * size
  | _ => 2 * (size + registrySize)

/-- The calls that are enough for each value in one of a type of some size. Its parts are checked
against types inside it or inside registered types. -/
def callLimit (registrySize size : Nat) : Nat := 2 * (size + registrySize + registrySize)

/-! ## The check within a limit of calls -/

/-- A check that always ends. -/
def Trail.total {α : Type} (check : StateM Trail α) : StateT Trail Option α :=
  fun trail => some (check.run trail)

/-- The outcome of a check that may not end. -/
def Trail.outcome? {α : Type} (check : StateT Trail Option α) : Option (Checked α) :=
  (check.run {}).map fun (result, trail) => verdict result trail

section

open Trail

mutual

/-- The check of a value against a type with `calls` calls left for this value, and `limit` for each
of its parts. It does not end if they do not last. -/
def InputType.coerceAtWithin (registry : Registry) (limit calls : Nat) (value : Json)
    (type : InputType) : StateT Trail Option Json :=
  match calls with
  | 0 => failure
  | calls + 1 =>
    match type with
    | .named type => type.coerceAtWithin registry limit calls value
    | .nonNull inner =>
      if value.isNull then total (refuse (.nullForNonNull (InputType.nonNull inner).text))
      else inner.coerceAtWithin registry limit calls value
    | .reference name =>
      if value.isNull then return .null
      else
        match registry.get? name with
        | some type => (InputType.named type).coerceAtWithin registry limit calls value
        | none => total (refuse (.unknownType name))
    | .list item =>
      match value with
      | .null => return .null
      | .array items => return .array (← coerceItemsAtWithin registry limit item 0 items)
      | lone => return .array [← item.coerceAtWithin registry limit calls lone]
termination_by (sizeOf value, calls, 0)

/-- The check of a value against a named type, a part of a call that has been counted. -/
def NamedType.coerceAtWithin (registry : Registry) (limit calls : Nat) (value : Json)
    (type : NamedType) : StateT Trail Option Json :=
  if value.isNull then return .null
  else
    match type with
    | .builtin scalar =>
      match scalar.parseValue value with
      | .ok parsed => return parsed
      | .error error => total (refuse (.scalar scalar.name error))
    | .enum enum => total (enum.coerceAt value)
    | .object object =>
      match value with
      | .object members => do
        let fields ← coerceFieldsAtWithin registry limit members object.fields
        total (object.reportUndeclared members)
        return .object fields
      | _ => total (refuse (.notAnObject object.name))
    | .union u => do
      match ← u.parseValueWithin registry limit calls value with
      | .ok parsed => return parsed
      | .error error => total (refuse (.scalar u.name (.union error)))
termination_by (sizeOf value, calls, 1)

/-- The rule of a union on a value, with `calls` calls left for this value. -/
def UnionType.parseValueWithin (registry : Registry) (limit calls : Nat) (value : Json)
    (union : UnionType) : Option (Except UnionError Json) :=
  match calls with
  | 0 => none
  | calls + 1 =>
    match union.typeOfValue value with
    | .error error => some (.error error)
    | .ok type =>
      (outcome? ((InputType.named type).coerceAtWithin registry limit calls value)).map
        (gate union.name type.name value)
termination_by (sizeOf value, calls, 0)

/-- The check of the items of an array, each with `limit` calls of its own. -/
def coerceItemsAtWithin (registry : Registry) (limit : Nat) (item : InputType) (index : Nat)
    (items : List Json) : StateT Trail Option (List Json) := do
  match items with
  | [] => return []
  | value :: rest =>
    total (enter (.index index))
    let result ← item.coerceAtWithin registry limit limit value
    total leave
    return result :: (← coerceItemsAtWithin registry limit item (index + 1) rest)
termination_by (sizeOf items, 0, 0)

/-- The check of the members of an object, each with `limit` calls of its own. -/
def coerceFieldsAtWithin (registry : Registry) (limit : Nat) (members : List (String × Json))
    (fields : List Field) : StateT Trail Option (List (String × Json)) := do
  match fields with
  | [] => return []
  | field :: rest =>
    match h : members.lookup field.name with
    | some value =>
      have := sizeOf_lt_of_lookup h
      total (enter (.key field.name))
      let result ← field.type.coerceAtWithin registry limit limit value
      total leave
      return (field.name, result) :: (← coerceFieldsAtWithin registry limit members rest)
    | none =>
      return (← total field.leaveOut) ++ (← coerceFieldsAtWithin registry limit members rest)
termination_by (sizeOf members, sizeOf fields, 0)

end

end

/-- The check of a value against a type, with `calls` calls for this value and `limit` for each of
its parts. There is no outcome if they do not last. -/
def InputType.coerceWithin (registry : Registry) (limit calls : Nat) (value : Json)
    (type : InputType) : Option (Checked Json) :=
  Trail.outcome? (type.coerceAtWithin registry limit calls value)

/-! ## Enough calls -/

namespace Trail

variable {α β : Type}

theorem total_pure (a : α) : total (pure a) = pure a := rfl

theorem total_bind {check : StateM Trail α} {next : α → StateM Trail β} :
    total (check >>= next) = total check >>= fun a => total (next a) := rfl

theorem outcome?_total {check : StateM Trail α} :
    outcome? (total check) = some (outcome check) := rfl

end Trail

section

open Trail

variable {registry : Registry} {limit : Nat}

theorem coerceItemsAtWithin_eq {item : InputType} {items : List Json}
    (hitem : ∀ value ∈ items,
      item.coerceAtWithin registry limit limit value = total (item.coerceAt registry value))
    (index : Nat) :
    coerceItemsAtWithin registry limit item index items =
      total (coerceItemsAt registry item index items) := by
  induction items generalizing index with
  | nil => rw [coerceItemsAtWithin.eq_def, coerceItemsAt.eq_def, total_pure]
  | cons value rest ih =>
    obtain ⟨hvalue, hrest⟩ := List.forall_mem_cons.mp hitem
    rw [coerceItemsAtWithin.eq_def, coerceItemsAt.eq_def]
    simp only [hvalue, ih hrest, total_bind, total_pure]

theorem coerceFieldsAtWithin_eq {members : List (String × Json)} {fields : List Field}
    (hfield : ∀ field ∈ fields, ∀ value, members.lookup field.name = some value →
      field.type.coerceAtWithin registry limit limit value =
        total (field.type.coerceAt registry value)) :
    coerceFieldsAtWithin registry limit members fields =
      total (coerceFieldsAt registry members fields) := by
  induction fields with
  | nil => rw [coerceFieldsAtWithin.eq_def, coerceFieldsAt.eq_def, total_pure]
  | cons field rest ih =>
    obtain ⟨hfirst, hrest⟩ := List.forall_mem_cons.mp hfield
    rw [coerceFieldsAtWithin.eq_def, coerceFieldsAt.eq_def]
    simp only [ih hrest]
    cases hlookup : members.lookup field.name with
    | none => simp only [total_bind, total_pure]
    | some value =>
      simp only [hfirst value hlookup, total_bind, total_pure]

/-- The rule of a union needs a call more than the candidate that it leads to. -/
theorem parseValueWithin_eq_of_candidate {union : UnionType} {value : Json} {calls : Nat}
    (h : ∀ type, union.typeOfValue value = .ok type →
      (InputType.named type).coerceAtWithin registry limit calls value =
        total ((InputType.named type).coerceAt registry value)) :
    union.parseValueWithin registry limit (calls + 1) value =
      some (union.parseValue registry value) := by
  rw [UnionType.parseValueWithin.eq_def]
  cases htype : union.typeOfValue value with
  | error error => simp [parseValue_of_typeOfValue_error htype]
  | ok type =>
    simp only [h type htype, outcome?_total, Option.map_some, parseValue_of_typeOfValue htype]
    rfl

theorem coerceAtWithin_named {type : NamedType} {value : Json} {calls : Nat} :
    (InputType.named type).coerceAtWithin registry limit (calls + 1) value =
      type.coerceAtWithin registry limit calls value := by
  rw [InputType.coerceAtWithin.eq_def]

variable {registrySize size : Nat}

theorem callBound_le {type : InputType} {n : Nat} (h : n ≤ size) :
    type.callBound registrySize n ≤ 2 * (size + registrySize) := by
  cases type <;> simp only [InputType.callBound] <;> omega

/-- A type that is put into a list, or gets rid of null, takes a call more. -/
theorem callBound_lt (type : InputType) {n : Nat} :
    type.callBound registrySize n < 2 * (n + 1 + registrySize) := by
  have hle : type.callBound registrySize n ≤ 2 * (n + registrySize) := callBound_le (Nat.le_refl n)
  omega

/-- What a reference stands for takes at least one call less. -/
theorem callBound_lt_of_le (type : NamedType) {n : Nat} (h : n ≤ registrySize) :
    (InputType.named type).callBound registrySize n < 2 * (1 + registrySize) := by
  simp only [InputType.callBound]
  omega

/-- A type takes one call at least. -/
theorem exists_call {type : InputType} {n calls : Nat} (hsized : type.Sized n)
    (hcalls : type.callBound registrySize n ≤ calls) : ∃ spare, calls = spare + 1 := by
  have hpos := hsized.pos
  refine Nat.exists_eq_succ_of_ne_zero fun hzero => ?_
  cases type <;> simp only [InputType.callBound] at hcalls <;> omega

/-- Under a named type that is no union, any number of calls will do. -/
theorem coerceAtWithin_of_named {type : NamedType} {value : Json} {n calls : Nat}
    (hsized : (InputType.named type).Sized n)
    (hcalls : (InputType.named type).callBound registrySize n ≤ calls)
    (h : ∀ calls, type.coerceAtWithin registry limit calls value =
      total (type.coerceAt registry value)) :
    (InputType.named type).coerceAtWithin registry limit calls value =
      total ((InputType.named type).coerceAt registry value) := by
  obtain ⟨calls, rfl⟩ := exists_call hsized hcalls
  rw [coerceAtWithin_named, coerceAt_named, h]

/-- A union spends two calls before it is the turn of a candidate, and those left are enough for a
type that is smaller than the union. -/
theorem exists_two_calls {type : NamedType} {n calls : Nat}
    (hsized : (InputType.named type).Sized n)
    (hcalls : (InputType.named type).callBound registrySize n ≤ calls) :
    ∃ spare, calls = spare + 1 + 1 ∧ ∀ (candidate : NamedType) {m : Nat}, m < n →
      (InputType.named candidate).callBound registrySize m ≤ spare := by
  have hpos := hsized.pos
  simp only [InputType.callBound] at hcalls ⊢
  exact ⟨calls - 2, by omega, fun _ _ hlt => by omega⟩

/-- **The check within a limit.** With as many calls as its bound says, a check runs as without a
limit. -/
theorem coerceAtWithin_eq (hregistry : registry.Sized registrySize) (hle : registrySize ≤ size)
    {type : InputType} {value : Json} {n calls : Nat} (hsized : type.Sized n) (hn : n ≤ size)
    (hcalls : type.callBound registrySize n ≤ calls) :
    type.coerceAtWithin registry (2 * (size + registrySize)) calls value =
      total (type.coerceAt registry value) := by
  induction type, value using valueInduction registry generalizing n calls with
  | null type =>
    cases type with
    | named type =>
      refine coerceAtWithin_of_named hsized hcalls fun calls => ?_
      rw [NamedType.coerceAtWithin.eq_def, NamedType.coerceAt.eq_def]
      rfl
    | _ =>
      obtain ⟨calls, rfl⟩ := exists_call hsized hcalls
      rw [InputType.coerceAtWithin.eq_def, InputType.coerceAt.eq_def]
      rfl
  | nonNull inner value hnull ih =>
    cases hsized with
    | nonNull hinner =>
      obtain ⟨spare, rfl⟩ :=
        Nat.exists_eq_add_of_lt (Nat.lt_of_lt_of_le (callBound_lt inner) hcalls)
      rw [InputType.coerceAtWithin.eq_def, coerceAt_nonNull hnull]
      simpa [hnull] using ih hinner (Nat.le_of_succ_le hn) (Nat.le_add_right _ spare)
  | reference name value hnull ih =>
    cases hsized with
    | reference =>
      cases hget : registry.get? name with
      | none =>
        obtain ⟨calls, rfl⟩ := exists_call .reference hcalls
        rw [InputType.coerceAtWithin.eq_def, InputType.coerceAt.eq_def]
        simp [hnull, hget]
      | some type =>
        obtain ⟨m, hm, htype⟩ := hregistry type (List.mem_of_find?_eq_some hget)
        obtain ⟨spare, rfl⟩ := Nat.exists_eq_add_of_lt
          (Nat.lt_of_lt_of_le (callBound_lt_of_le type hm) hcalls)
        rw [InputType.coerceAtWithin.eq_def, coerceAt_reference_some hnull hget]
        simpa [hnull, hget] using
          ih type hget htype (Nat.le_trans hm hle) (Nat.le_add_right _ spare)
  | array item items ih =>
    obtain ⟨calls, rfl⟩ := exists_call hsized hcalls
    cases hsized with
    | list hitem =>
      have hn := Nat.le_of_succ_le hn
      have hitems := coerceItemsAtWithin_eq
        (fun value hmem => ih value hmem hitem hn (callBound_le hn)) 0
      rw [InputType.coerceAtWithin.eq_def, InputType.coerceAt.eq_def]
      simp only [hitems, total_bind, total_pure]
  | lone item value hnull harray ih =>
    cases hsized with
    | list hitem =>
      obtain ⟨spare, rfl⟩ := Nat.exists_eq_add_of_lt (Nat.lt_of_lt_of_le (callBound_lt item) hcalls)
      have hlone := ih hitem (Nat.le_of_succ_le hn) (Nat.le_add_right _ spare)
      rw [InputType.coerceAtWithin.eq_def, InputType.coerceAt.eq_def]
      cases value with
      | null => exact absurd rfl hnull
      | array items => exact absurd rfl (harray items)
      | _ => simp only [hlone, total_bind, total_pure]
  | builtin scalar value hnull =>
    refine coerceAtWithin_of_named hsized hcalls fun calls => ?_
    rw [NamedType.coerceAtWithin.eq_def, NamedType.coerceAt.eq_def]
    simp only [Json.isNull_eq_true, hnull, ↓reduceIte]
    cases scalar.parseValue value <;> rfl
  | enum enum value hnull =>
    refine coerceAtWithin_of_named hsized hcalls fun calls => ?_
    rw [NamedType.coerceAtWithin.eq_def, NamedType.coerceAt.eq_def]
    simp only [Json.isNull_eq_true, hnull, ↓reduceIte]
  | object object members ih =>
    refine coerceAtWithin_of_named hsized hcalls fun calls => ?_
    rw [NamedType.coerceAtWithin.eq_def, NamedType.coerceAt.eq_def]
    have hfields : coerceFieldsAtWithin registry (2 * (size + registrySize)) members object.fields =
        total (coerceFieldsAt registry members object.fields) := by
      refine coerceFieldsAtWithin_eq fun field hmem value hlookup => ?_
      obtain ⟨fieldSize, hlt, hfield⟩ := Field.sized_of_mem hsized hmem
      exact ih field hmem value hlookup hfield (by omega) (callBound_le (by omega))
    simp only [hfields]
    rfl
  | other object value hnull hobject =>
    refine coerceAtWithin_of_named hsized hcalls fun calls => ?_
    rw [NamedType.coerceAtWithin.eq_def, NamedType.coerceAt.eq_def]
    cases value <;> simp_all
  | union union value hnull ih =>
    obtain ⟨spare, rfl, hspare⟩ := exists_two_calls hsized hcalls
    rw [coerceAtWithin_named, coerceAt_named, NamedType.coerceAtWithin.eq_def,
      NamedType.coerceAt.eq_def]
    have hparse : union.parseValueWithin registry (2 * (size + registrySize)) (spare + 1) value =
        some (union.parseValue registry value) := by
      refine parseValueWithin_eq_of_candidate fun type htype => ?_
      obtain ⟨m, hlt, hm⟩ := NamedType.sized_of_before hsized
        (UnionType.before_of_typeOfValue htype)
      exact ih type htype hm (by omega) (hspare type hlt)
    simp only [Json.isNull_eq_true, hnull, ↓reduceIte, hparse]
    cases union.parseValue registry value <;> rfl

/-- The rule of a union runs within the limit as without one. -/
theorem parseValueWithin_eq (hregistry : registry.Sized registrySize) (hle : registrySize ≤ size)
    {union : UnionType} (value : Json) {n calls : Nat}
    (hsized : (InputType.named (.union union)).Sized n) (hn : n ≤ size) (hcalls : 2 * n ≤ calls) :
    union.parseValueWithin registry (2 * (size + registrySize)) calls value =
      some (union.parseValue registry value) := by
  have hbound : (InputType.named (.union union)).callBound registrySize n ≤ calls := hcalls
  obtain ⟨calls, rfl⟩ := exists_call hsized hbound
  refine parseValueWithin_eq_of_candidate fun type htype => ?_
  obtain ⟨m, hlt, hm⟩ := NamedType.sized_of_before hsized (UnionType.before_of_typeOfValue htype)
  refine coerceAtWithin_eq hregistry hle hm (by omega) ?_
  simp only [InputType.callBound]
  omega

end

end TaggedUnion
