import TaggedUnion.Coercion.Literal
import TaggedUnion.Proofs.Coercion.MemberOrder

/-!
# Types that differ in callbacks

A union may have a callback that gives the key of a runtime value, and another one that chooses the
candidate of a literal. Callbacks are any functions. Two types are variants if they are equal but
for the callbacks of one mode.

* `InputType.Variants`: the relation, at any depth. It is made of a relation for each part of a
  type, over the one for types.
* `Registry.Variants`: registries of such types.
* `InputType.Variants.refl`, `variants_withLiterals`, `variants_withValues`: which types are
  variants.
* `resolve_of_over`: variants of lookups find variants, or refuse a key for the same reason.
-/

namespace TaggedUnion

/-- The callbacks of a union. -/
inductive Callback where
  | ofValue
  | ofLiteral
  deriving DecidableEq, Repr

/-! ## Variants -/

/-- Two lookups with related candidates under the same keys. -/
inductive Lookup.Over (R : InputType → InputType → Prop) : Lookup → Lookup → Prop where
  | table {entries entries' : List (String × NamedType)}
    (hkeys : entries.map Prod.fst = entries'.map Prod.fst)
    (htypes : List.Forall₂ (fun type type' => R (.named type) (.named type'))
      (entries.map Prod.snd) (entries'.map Prod.snd)) : Over R (.table entries) (.table entries')
  | deferred {types types' : String → Option InputType} {wrap : Bool}
    (h : ∀ key, Option.Rel R (types key) (types' key)) :
    Over R (.deferred types wrap) (.deferred types' wrap)
  | absent : Over R .absent .absent

/-- Two functions for literals that give related candidates, unless a union has none. -/
inductive AnswersOver (R : InputType → InputType → Prop) :
    Option (Literal.Node → Option InputType) → Option (Literal.Node → Option InputType) → Prop where
  | absent : AnswersOver R none none
  | given {types types' : Literal.Node → Option InputType}
    (h : ∀ node, Option.Rel R (types node) (types' node)) : AnswersOver R (some types) (some types')

/-- Two fields of related types. -/
inductive Field.Over (R : InputType → InputType → Prop) : Field → Field → Prop where
  | intro {name : String} {type type' : InputType} {description : Option String}
    {default? : Option Json} (htype : R type type') :
    Over R ⟨name, type, description, default?⟩ ⟨name, type', description, default?⟩

/-- Two object types with related fields. -/
inductive ObjectType.Over (R : InputType → InputType → Prop) : ObjectType → ObjectType → Prop where
  | intro {name : String} {description : Option String} {fields fields' : List Field}
    (hfields : List.Forall₂ (Field.Over R) fields fields') :
    Over R ⟨name, description, fields⟩ ⟨name, description, fields'⟩

/-- Two unions with related candidates. They may have any callbacks of the given kind. -/
inductive UnionType.Over (callback : Callback) (R : InputType → InputType → Prop) :
    UnionType → UnionType → Prop where
  | intro {name : String} {description typeKey : Option String} {lookup lookup' : Lookup}
    {keyOfValue keyOfValue' : Option (Json → String)}
    {typeOfLiteral typeOfLiteral' : Option (Literal.Node → Option InputType)}
    (hlookup : lookup.Over R lookup')
    (hvalue : callback ≠ .ofValue → keyOfValue = keyOfValue')
    (hliteral : callback ≠ .ofLiteral → AnswersOver R typeOfLiteral typeOfLiteral') :
    Over callback R ⟨name, description, typeKey, lookup, keyOfValue, typeOfLiteral⟩
      ⟨name, description, typeKey, lookup', keyOfValue', typeOfLiteral'⟩

/-- Two types are equal, except that the unions in them may have any callbacks of the given kind:
the type itself, the types of items and fields, and the candidates that are listed, that a function
finds, or that a callback of the other kind gives. What a name stands for is up to the registry. -/
inductive InputType.Variants (callback : Callback) : InputType → InputType → Prop where
  | builtin {scalar : Builtin} :
    Variants callback (.named (.builtin scalar)) (.named (.builtin scalar))
  | enum {enum : EnumType} : Variants callback (.named (.enum enum)) (.named (.enum enum))
  | object {object object' : ObjectType} (h : object.Over (Variants callback) object') :
    Variants callback (.named (.object object)) (.named (.object object'))
  | union {union union' : UnionType} (h : union.Over callback (Variants callback) union') :
    Variants callback (.named (.union union)) (.named (.union union'))
  | list {item item' : InputType} (h : Variants callback item item') :
    Variants callback (.list item) (.list item')
  | nonNull {inner inner' : InputType} (h : Variants callback inner inner') :
    Variants callback (.nonNull inner) (.nonNull inner')
  | reference {name : String} : Variants callback (.reference name) (.reference name)

/-- Named types that are variants. -/
def NamedType.Variants (callback : Callback) (type type' : NamedType) : Prop :=
  (InputType.named type).Variants callback (.named type')

/-- The registered types are variants, one by one. -/
def Registry.Variants (callback : Callback) (registry registry' : Registry) : Prop :=
  List.Forall₂ (NamedType.Variants callback) registry.types registry'.types

/-! ## Parts that are related one by one -/

section Related

variable {α : Type} {R : α → α → Prop}

theorem rel_refl {a? : Option α} (h : ∀ a, a? = some a → R a a) : Option.Rel R a? a? := by
  cases a? with
  | none => exact .none
  | some a => exact .some (h a rfl)

theorem isSome_of_rel {a? a?' : Option α} (h : Option.Rel R a? a?') : a?.isSome = a?'.isSome := by
  cases h <;> rfl

/-- A condition that does not tell related items apart finds related ones. -/
theorem find?_of_forall₂ {p : α → Bool} {as as' : List α} (h : List.Forall₂ R as as')
    (hp : ∀ a a', R a a' → p a = p a') : Option.Rel R (as.find? p) (as'.find? p) := by
  induction h with
  | nil => exact .none
  | @cons a a' _ _ hhead _ ih =>
    rw [List.find?_cons, List.find?_cons, hp a a' hhead]
    cases p a' with
    | true => exact .some hhead
    | false => exact ih

end Related

/-- Both outcomes are one error, or related results. -/
inductive Alike {ε α : Type} (R : α → α → Prop) : Except ε α → Except ε α → Prop where
  | ok {a a' : α} (h : R a a') : Alike R (.ok a) (.ok a')
  | error {e : ε} : Alike R (.error e) (.error e)

/-! ## Which types are variants -/

section Refl

variable {callback : Callback}

theorem AnswersOver.refl {R : InputType → InputType → Prop}
    {types? : Option (Literal.Node → Option InputType)}
    (h : ∀ types, types? = some types → ∀ node type, types node = some type → R type type) :
    AnswersOver R types? types? := by
  cases types? with
  | none => exact .absent
  | some types => exact .given fun node => rel_refl (h types rfl node)

theorem Lookup.over_refl {R : InputType → InputType → Prop} {lookup : Lookup}
    (h : ∀ type, lookup.Holds type → R type type) : lookup.Over R lookup := by
  cases lookup with
  | table entries =>
    refine .table rfl (List.forall₂_same.mpr fun type hmem => ?_)
    obtain ⟨entry, hentry, rfl⟩ := List.mem_map.mp hmem
    exact h _ (.entry hentry)
  | deferred types wrap =>
    exact .deferred fun key => rel_refl fun type hanswer => h type (.answer hanswer)
  | absent => exact .absent

/-- Every type is a variant of itself. -/
theorem InputType.Variants.refl (type : InputType) : type.Variants callback type := by
  induction type using typeInduction with
  | builtin scalar => exact .builtin
  | enum enum => exact .enum
  | object object ih =>
    obtain ⟨name, description, fields⟩ := object
    refine .object (.intro (List.forall₂_same.mpr fun field hmem => ?_))
    obtain ⟨fieldName, type, fieldDescription, default?⟩ := field
    exact .intro (ih _ hmem)
  | union union ih =>
    obtain ⟨name, description, typeKey, lookup, keyOfValue, typeOfLiteral⟩ := union
    refine .union (.intro (Lookup.over_refl fun type h => ih type (.found h)) (fun _ => rfl)
      fun _ => .refl fun types hliteral node type hanswer => ?_)
    exact ih type (.chosen hliteral hanswer)
  | list item ih => exact .list ih
  | nonNull inner ih => exact .nonNull ih
  | reference name => exact .reference

/-- Any callback for literals may take the place of that of a union. -/
theorem variants_withLiterals (union : UnionType)
    (typeOfLiteral : Option (Literal.Node → Option InputType)) :
    NamedType.Variants .ofLiteral (.union union)
      (.union { union with typeOfLiteral := typeOfLiteral }) := by
  obtain ⟨name, description, typeKey, lookup, keyOfValue, _⟩ := union
  exact .union (.intro (Lookup.over_refl fun type _ => .refl type) (fun _ => rfl)
    fun h => absurd rfl h)

/-- Any callback for values may take the place of that of a union. -/
theorem variants_withValues (union : UnionType)
    (keyOfValue : Option (Json → String)) :
    NamedType.Variants .ofValue (.union union)
      (.union { union with keyOfValue := keyOfValue }) := by
  obtain ⟨name, description, typeKey, lookup, _, typeOfLiteral⟩ := union
  exact .union (.intro (Lookup.over_refl fun type _ => .refl type) (fun h => absurd rfl h)
    fun _ => .refl fun _ _ _ type _ => .refl type)

end Refl

/-! ## What variants have in common -/

section Common

variable {callback : Callback}

theorem NamedType.Variants.name_eq {type type' : NamedType} (h : type.Variants callback type') :
    type.name = type'.name := by
  cases h with
  | builtin => rfl
  | enum => rfl
  | object h => cases h; rfl
  | union h => cases h; rfl

theorem InputType.Variants.isNonNull_eq {type type' : InputType}
    (h : type.Variants callback type') : type.isNonNull = type'.isNonNull := by
  cases h <;> rfl

theorem InputType.Variants.text_eq {type type' : InputType} (h : type.Variants callback type') :
    type.text = type'.text := by
  cases h with
  | builtin => rfl
  | enum => rfl
  | object h => exact NamedType.Variants.name_eq (.object h)
  | union h => exact NamedType.Variants.name_eq (.union h)
  | list h => rw [text, text, h.text_eq]
  | nonNull h => rw [text, text, h.text_eq]
  | reference => rfl
termination_by sizeOf type

variable {registry registry' : Registry}

theorem Registry.Variants.get? (h : registry.Variants callback registry') (name : String) :
    Option.Rel (NamedType.Variants callback) (registry.get? name) (registry'.get? name) :=
  find?_of_forall₂ h fun type type' hvariants => by rw [hvariants.name_eq]

theorem isSome_field?_of_over {R : InputType → InputType → Prop} {object object' : ObjectType}
    (h : object.Over R object') (name : String) :
    (object.field? name).isSome = (object'.field? name).isSome := by
  cases h with
  | intro hfields =>
    exact isSome_of_rel (find?_of_forall₂ hfields (by rintro _ _ ⟨_⟩; rfl))

/-! ## Candidates -/

variable {union key : String}

theorem ensureCandidate_of_variants {type type' : InputType} (h : type.Variants callback type') :
    Alike (NamedType.Variants callback) (ensureCandidate union key type)
      (ensureCandidate union key type') := by
  cases h with
  | builtin => exact .ok .builtin
  | object h => exact .ok (.object h)
  | union h => exact .ok (.union h)
  | enum => exact .error
  | list => exact .error
  | nonNull => exact .error
  | reference => exact .error

theorem wrapperOf_variants {payload payload' : NamedType} (h : payload.Variants callback payload') :
    NamedType.Variants callback (.object (wrapperOf key payload))
      (.object (wrapperOf key payload')) :=
  .object (.intro (.cons (.intro .builtin) (.cons (.intro h) .nil)))

theorem candidate_of_variants {wrap : Bool} {type type' : InputType}
    (h : type.Variants callback type') :
    Alike (NamedType.Variants callback) (candidate union wrap key type)
      (candidate union wrap key type') := by
  have hensure : Alike (NamedType.Variants callback) (ensureCandidate union key type)
      (ensureCandidate union key type') := ensureCandidate_of_variants h
  unfold candidate wrapper
  cases wrap with
  | false => exact hensure
  | true =>
    generalize ensureCandidate union key type = outcome at hensure ⊢
    generalize ensureCandidate union key type' = outcome' at hensure ⊢
    cases hensure with
    | ok hpayload => exact .ok (wrapperOf_variants hpayload)
    | error => exact .error

theorem resolve_of_over {lookup lookup' : Lookup}
    (h : lookup.Over (InputType.Variants callback) lookup') :
    Alike (NamedType.Variants callback) (lookup.resolve union key) (lookup'.resolve union key) := by
  unfold Lookup.resolve
  cases h with
  | table hkeys htypes =>
    have hfound := lookup_of_forall₂ hkeys htypes key
    simp only [hkeys]
    revert hfound
    generalize List.lookup key _ = found
    generalize List.lookup key _ = found'
    rintro (htype | _)
    · exact .ok htype
    · exact .error
  | @deferred types types' _ h =>
    have hanswer := h key
    simp only []
    generalize types key = found at hanswer
    generalize types' key = found' at hanswer
    cases hanswer with
    | some htype => exact candidate_of_variants htype
    | none => exact .error
  | absent => exact .error

end Common

end TaggedUnion
