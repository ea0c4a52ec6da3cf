import TaggedUnion.Coercion.Value

/-!
# From a runtime value to its candidate

How a union finds the type that a runtime value has to conform to, stated apart from the functions
that do it.

* `UnionType.ReadsKey`: the keys that a union reads from a value.
* `Lookup.Finds`: the candidates that a lookup finds under a key.
* `typeOfValue_eq_ok_iff`: the type of a value is what the lookup finds under the key that is read.
-/

namespace TaggedUnion

/-- A union is given the key of a runtime value by its function, or reads it from the member that
the type key names, or from the tag of a wrapper. -/
inductive UnionType.ReadsKey (union : UnionType) (value : Json) : String → Prop where
  | function {keyOfValue : Json → String} (hfunction : union.keyOfValue = some keyOfValue) :
    ReadsKey union value (keyOfValue value)
  | typeKey {field : String} {member : Json} (hfunction : union.keyOfValue = none)
    (hkey : union.typeKey = some field) (hmember : value.member? field = some member)
    (htruthy : member.isTruthy) : ReadsKey union value member.keyText
  /-- Both members of a wrapper have to be truthy. -/
  | wrapper {tag payload : Json} (hfunction : union.keyOfValue = none) (hkey : union.typeKey = none)
    (htag : value.member? typeField = some tag) (htruthy : tag.isTruthy)
    (hpayload : value.member? valueField = some payload) (hpresent : payload.isTruthy) :
    ReadsKey union value tag.keyText

/-- A lookup finds a candidate in its entries, or is given one by a function. A candidate that is
given must not be an enum, and it is wrapped if the lookup wraps. -/
inductive Lookup.Finds (key : String) : Lookup → NamedType → Prop where
  | table {entries : List (String × NamedType)} {type : NamedType}
    (hentry : entries.lookup key = some type) : Finds key (.table entries) type
  | deferred {types : String → Option InputType} {type : NamedType}
    (hanswer : types key = some (.named type)) (hkind : type.kind ≠ .enum) :
    Finds key (.deferred types false) type
  | wrapped {types : String → Option InputType} {payload : NamedType}
    (hanswer : types key = some (.named payload)) (hkind : payload.kind ≠ .enum) :
    Finds key (.deferred types true) (.object (wrapperOf key payload))

theorem Json.memberKey?_eq_some_iff {name key : String} {value : Json} :
    value.memberKey? name = some key ↔
      ∃ member, value.member? name = some member ∧ member.isTruthy ∧ member.keyText = key := by
  simp [memberKey?, Option.filter_eq_some_iff, and_assoc]

theorem valueKey_eq_ok_iff {union : UnionType} {value : Json} {key : String} :
    union.valueKey value = .ok key ↔ union.ReadsKey value key := by
  unfold UnionType.valueKey
  constructor
  · intro h
    split at h
    · rename_i hfunction
      cases h
      exact .function hfunction
    · rename_i hfunction hkey
      split at h
      · rename_i hread
        cases h
        obtain ⟨member, hmember, htruthy, rfl⟩ := Json.memberKey?_eq_some_iff.mp hread
        exact .typeKey hfunction hkey hmember htruthy
      · simp at h
    · rename_i hfunction hkey
      split at h
      · rename_i hreadTag hreadPayload
        cases h
        obtain ⟨tag, htag, htruthy, rfl⟩ := Json.memberKey?_eq_some_iff.mp hreadTag
        obtain ⟨payload, hpayload, hpresent, -⟩ := Json.memberKey?_eq_some_iff.mp hreadPayload
        exact .wrapper hfunction hkey htag htruthy hpayload hpresent
      · simp at h
  · intro h
    cases h with
    | function hfunction => simp [hfunction]
    | typeKey hfunction hkey hmember htruthy =>
      have hread := Json.memberKey?_eq_some_iff.mpr ⟨_, hmember, htruthy, rfl⟩
      simp [hfunction, hkey, hread]
    | wrapper hfunction hkey htag htruthy hpayload hpresent =>
      have hreadTag := Json.memberKey?_eq_some_iff.mpr ⟨_, htag, htruthy, rfl⟩
      have hreadPayload := Json.memberKey?_eq_some_iff.mpr ⟨_, hpayload, hpresent, rfl⟩
      simp [hfunction, hkey, hreadTag, hreadPayload]

/-- Named types other than enums may be candidates. -/
theorem ensureCandidate_eq_ok_iff {union key : String} {type : InputType} {named : NamedType} :
    ensureCandidate union key type = .ok named ↔ type = .named named ∧ named.kind ≠ .enum := by
  constructor
  · intro h
    have htype := ensureCandidate_eq h
    subst htype
    cases named <;> simp_all [ensureCandidate, NamedType.kind]
  · rintro ⟨rfl, hkind⟩
    cases named <;> simp_all [ensureCandidate, NamedType.kind]

theorem resolve_eq_ok_iff (union : String) {lookup : Lookup} {key : String} {type : NamedType} :
    lookup.resolve union key = .ok type ↔ lookup.Finds key type := by
  unfold Lookup.resolve
  constructor
  · intro h
    split at h
    · split at h
      · rename_i hentry
        cases h
        exact .table hentry
      · simp at h
    · split at h
      · rename_i types wrap _ type' hanswer
        unfold candidate at h
        cases wrap with
        | false =>
          obtain ⟨rfl, hkind⟩ := ensureCandidate_eq_ok_iff.mp h
          exact .deferred hanswer hkind
        | true =>
          simp only [↓reduceIte, wrapper] at h
          cases hensure : ensureCandidate union key type' with
          | error => simp [hensure, Except.map] at h
          | ok payload =>
            obtain ⟨rfl, hkind⟩ := ensureCandidate_eq_ok_iff.mp hensure
            simp only [hensure, Except.map, Except.ok.injEq] at h
            subst h
            exact .wrapped hanswer hkind
      · simp at h
    · simp at h
  · intro h
    cases h with
    | table hentry => simp [hentry]
    | deferred hanswer hkind => simp [hanswer, candidate, ensureCandidate_eq_ok_iff, hkind]
    | wrapped hanswer hkind =>
      have hensure : ensureCandidate union key (.named _) = .ok _ :=
        ensureCandidate_eq_ok_iff.mpr ⟨rfl, hkind⟩
      simp [hanswer, candidate, wrapper, hensure, Except.map]

/-- The type of a value is what the lookup finds under the key that is read from the value. -/
theorem typeOfValue_eq_ok_iff {union : UnionType} {value : Json} {type : NamedType} :
    union.typeOfValue value = .ok type ↔
      ∃ key, union.ReadsKey value key ∧ union.lookup.Finds key type := by
  simp only [← valueKey_eq_ok_iff, ← resolve_eq_ok_iff union.name, UnionType.typeOfValue]
  cases union.valueKey value <;> simp

end TaggedUnion
