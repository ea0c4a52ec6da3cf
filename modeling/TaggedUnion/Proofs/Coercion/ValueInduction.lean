import TaggedUnion.Coercion.Value

/-!
# Induction over values under types

The check of runtime values is a recursion over a value and a type at once, through references and
candidates of unions. This file gives the induction that follows it, so that no later proof has to
look at the measure of the recursion.

* `valueInduction`: what holds of each type and value if it holds of the parts that the check goes
  to.
-/

namespace TaggedUnion

@[simp] theorem Json.isNull_eq_true {value : Json} : value.isNull = true ↔ value = .null := by
  cases value <;> simp [isNull]

@[simp] theorem Json.isNull_eq_false {value : Json} : value.isNull = false ↔ value ≠ .null := by
  cases value <;> simp [isNull]

/-- What is found under a name is an entry of that name. -/
theorem mem_of_lookup {α : Type} {entries : List (String × α)} {name : String} {value : α}
    (h : entries.lookup name = some value) : (name, value) ∈ entries := by
  obtain ⟨before, after, rfl, -⟩ := List.lookup_eq_some_iff.mp h
  simp

/-! ## Induction -/

/-- **Induction over a value and a type.** The cases are the steps of the check: a null is looked at
first, an array goes to its items and an object to its members, and a type that does not go to a
part of the value is replaced by what it stands for. -/
theorem valueInduction (registry : Registry) {P : InputType → Json → Prop}
    (null : ∀ type, P type .null)
    (nonNull : ∀ inner value, value ≠ .null → P inner value → P (.nonNull inner) value)
    (reference : ∀ name value, value ≠ .null →
      (∀ type, registry.get? name = some type → P (.named type) value) →
      P (.reference name) value)
    (array : ∀ item items, (∀ value ∈ items, P item value) → P (.list item) (.array items))
    (lone : ∀ item value, value ≠ .null → (∀ items, value ≠ .array items) → P item value →
      P (.list item) value)
    (builtin : ∀ scalar value, value ≠ .null → P (.named (.builtin scalar)) value)
    (enum : ∀ enum value, value ≠ .null → P (.named (.enum enum)) value)
    (object : ∀ object members, (∀ field ∈ object.fields, ∀ value,
      members.lookup field.name = some value → P field.type value) →
      P (.named (.object object)) (.object members))
    (other : ∀ object value, value ≠ .null → (∀ members, value ≠ .object members) →
      P (.named (.object object)) value)
    (union : ∀ union value, value ≠ .null →
      (∀ type, union.typeOfValue value = .ok type → P (.named type) value) →
      P (.named (.union union)) value)
    (type : InputType) (value : Json) : P type value := by
  have ih : ∀ type' value', Prod.Lex (· < ·) InputType.Before
      (sizeOf value', type') (sizeOf value, type) → P type' value' :=
    fun type' value' hlt => valueInduction registry null nonNull reference array lone builtin enum
      object other union type' value'
  by_cases hnull : value = .null
  · subst hnull
    exact null type
  -- Without going to a part of the value, the type has to be replaced.
  have same : ∀ type', type'.Before type → P type' value :=
    fun type' h => ih type' value (Prod.Lex.right _ h)
  have smaller : ∀ type' value', sizeOf value' < sizeOf value → P type' value' :=
    fun type' value' h => ih type' value' (Prod.Lex.left _ _ h)
  cases type with
  | nonNull inner => exact nonNull inner value hnull (same inner .inner)
  | reference name => exact reference name value hnull fun type' _ => same (.named type') .target
  | list item =>
    by_cases harray : ∃ items, value = .array items
    · obtain ⟨items, rfl⟩ := harray
      refine array item items fun value' hmem => smaller item value' ?_
      have := List.sizeOf_lt_of_mem hmem
      simp only [Json.array.sizeOf_spec]
      omega
    · exact lone item value hnull (by simpa using harray) (same item .item)
  | named type =>
    cases type with
    | builtin scalar => exact builtin scalar value hnull
    | enum e => exact enum e value hnull
    | object o =>
      by_cases hobject : ∃ members, value = .object members
      · obtain ⟨members, rfl⟩ := hobject
        refine object o members fun field _ value' hlookup => smaller field.type value' ?_
        have := sizeOf_lt_of_lookup hlookup
        simp only [Json.object.sizeOf_spec]
        omega
      · exact other o value hnull (by simpa using hobject)
    | union u =>
      exact union u value hnull fun type' htype =>
        same (.named type') (UnionType.before_of_typeOfValue htype)
termination_by (sizeOf value, type)
decreasing_by exact hlt

end TaggedUnion
