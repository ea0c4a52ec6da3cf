import TaggedUnion.Proofs.Schema.Closure
import TaggedUnion.Proofs.Union.Wrapping

/-!
# The order of members

The check of a value asks for members by their names, so their order does not matter to it. One
thing is read off a whole value: a tag that is no string counts by its text, members in order. With
a type key that would show; in a wrapper it does not, since its tag has to be a string in the end.

* `Json.Reordered`: values that differ in the order of members only.
* `Json.IsTagged`: the members of certain names are strings, everywhere in a value.
* `conforms_of_reordered`: reordered values conform to the same types.
-/

namespace TaggedUnion

namespace Json

/-- A value with the values inside it, at any depth. -/
inductive Part : Json → Json → Prop where
  | here {value : Json} : Part value value
  | item {items : List Json} {element part : Json} (hmem : element ∈ items)
    (h : Part element part) : Part (.array items) part
  | member {members : List (String × Json)} {member : String × Json} {part : Json}
    (hmem : member ∈ members) (h : Part member.2 part) : Part (.object members) part

/-- No object in a value has two members of one name, and members of certain names are strings. -/
structure IsTagged (p : String → Prop) (value : Json) : Prop where
  distinct : ∀ members, value.Part (.object members) → (members.map Prod.fst).Nodup
  tags : ∀ members, value.Part (.object members) → ∀ member ∈ members, p member.1 →
    ∃ text, member.2 = .string text

/-- The values differ in the order of members only, at any depth. -/
inductive Reordered : Json → Json → Prop where
  | same {value : Json} : Reordered value value
  | array {items items' : List Json} (hitems : List.Forall₂ Reordered items items') :
    Reordered (.array items) (.array items')
  /-- The members are put in another order, and each value may be reordered. -/
  | object {members order members' : List (String × Json)} (hperm : members.Perm order)
    (hnames : order.map Prod.fst = members'.map Prod.fst)
    (hvalues : List.Forall₂ Reordered (order.map Prod.snd) (members'.map Prod.snd)) :
    Reordered (.object members) (.object members')

end Json

/-! ## Parts -/

section Parts

variable {p : String → Prop}

theorem Json.IsTagged.item {items : List Json} {value : Json}
    (h : (Json.array items).IsTagged p) (hmem : value ∈ items) : value.IsTagged p :=
  ⟨fun members hpart => h.distinct members (.item hmem hpart),
    fun members hpart => h.tags members (.item hmem hpart)⟩

theorem Json.IsTagged.member {members : List (String × Json)} {name : String} {value : Json}
    (h : (Json.object members).IsTagged p) (hlookup : members.lookup name = some value) :
    value.IsTagged p := by
  have hmem := mem_of_lookup hlookup
  exact ⟨fun members hpart => h.distinct members (.member hmem hpart),
    fun members hpart => h.tags members (.member hmem hpart)⟩

/-- A tag that is there is a string. -/
theorem Json.IsTagged.string {value tag : Json} {name : String} (h : value.IsTagged p)
    (hname : p name) (hmember : value.member? name = some tag) : ∃ text, tag = .string text := by
  obtain ⟨members, rfl, hlookup⟩ := Json.member?_eq_some_iff.mp hmember
  exact h.tags members .here _ (mem_of_lookup hlookup) hname

end Parts

/-! ## Reordered values -/

/-- With distinct names, a lookup does not depend on the order. -/
theorem lookup_eq_of_perm {α : Type} {entries entries' : List (String × α)}
    (hperm : entries.Perm entries') (hdistinct : (entries.map Prod.fst).Nodup) (name : String) :
    entries.lookup name = entries'.lookup name := by
  cases hlookup : entries.lookup name with
  | some value =>
    have hmem := hperm.mem_iff.mp (mem_of_lookup hlookup)
    exact (lookup_of_mem ((hperm.map Prod.fst).nodup_iff.mp hdistinct) hmem).symm
  | none =>
    rw [List.lookup_eq_none_iff] at hlookup
    exact (List.lookup_eq_none_iff.mpr fun entry hmem =>
      hlookup entry (hperm.mem_iff.mpr hmem)).symm

/-- Where the names are the same in order, and what stands under them is related one by one, what is
found under a name is related, or nothing is found. -/
theorem lookup_of_forall₂ {α β : Type} {R : α → β → Prop} {entries : List (String × α)}
    {entries' : List (String × β)} (hnames : entries.map Prod.fst = entries'.map Prod.fst)
    (hrel : List.Forall₂ R (entries.map Prod.snd) (entries'.map Prod.snd)) (name : String) :
    Option.Rel R (entries.lookup name) (entries'.lookup name) := by
  induction entries generalizing entries' with
  | nil =>
    cases entries' with
    | nil => exact .none
    | cons => cases hnames
  | cons first rest ih =>
    cases entries' with
    | nil => cases hnames
    | cons first' rest' =>
      obtain ⟨other, a⟩ := first
      obtain ⟨other', b⟩ := first'
      obtain ⟨rfl, hrest⟩ : other = other' ∧ rest.map Prod.fst = rest'.map Prod.fst := by
        simpa using hnames
      obtain ⟨hfirst, hrel⟩ := List.forall₂_cons.mp hrel
      rw [List.lookup_cons, List.lookup_cons]
      cases name == other with
      | true => exact .some hfirst
      | false => exact ih hrest hrel

namespace Json.Reordered

variable {value value' : Json}

theorem eq_of_string {text : String} (h : Reordered (.string text) value) :
    value = .string text := by
  cases h
  rfl

theorem eq_of_string' {text : String} (h : Reordered value (.string text)) :
    value = .string text := by
  cases h
  rfl

theorem eq_null_iff (h : Reordered value value') : value = .null ↔ value' = .null := by
  cases h <;> simp

theorem isTruthy_eq (h : Reordered value value') : value.isTruthy = value'.isTruthy := by
  cases h <;> rfl

/-- The names are the same but for the order. -/
theorem names {members members' : List (String × Json)}
    (h : Reordered (.object members) (.object members')) :
    (members.map Prod.fst).Perm (members'.map Prod.fst) := by
  cases h with
  | same => exact .refl _
  | object hperm hnames _ => exact hnames ▸ hperm.map Prod.fst

/-- Under each name there are reordered values, or none. -/
theorem lookup {members members' : List (String × Json)}
    (h : Reordered (.object members) (.object members'))
    (hdistinct : (members.map Prod.fst).Nodup) (name : String) :
    Option.Rel Reordered (members.lookup name) (members'.lookup name) := by
  cases h with
  | same =>
    cases members.lookup name with
    | none => exact .none
    | some value => exact .some .same
  | object hperm hnames hvalues =>
    rw [lookup_eq_of_perm hperm hdistinct]
    exact lookup_of_forall₂ hnames hvalues name

theorem member? {p : String → Prop} (h : Reordered value value') (htagged : value.IsTagged p)
    (name : String) : Option.Rel Reordered (value.member? name) (value'.member? name) := by
  cases value with
  | object members =>
    have hdistinct := htagged.distinct members .here
    cases h with
    | same => exact lookup .same hdistinct name
    | object hperm hnames hvalues => exact lookup (.object hperm hnames hvalues) hdistinct name
  | _ =>
    cases h <;> exact .none

end Json.Reordered

/-! ## Tags -/

/-- The member that a union reads its key from. -/
def UnionType.tagName (union : UnionType) : String := union.typeKey.getD typeField

section Tags

variable {union : UnionType} {value value' : Json}

/-- With the same tag and payloads that are both truthy or not, values have the same candidate. -/
theorem typeOfValue_eq_of_tag (hvalue : union.keyOfValue = none)
    (htag : value.member? union.tagName = value'.member? union.tagName)
    (hpayload : (value.memberKey? valueField).isSome = (value'.memberKey? valueField).isSome) :
    union.typeOfValue value = union.typeOfValue value' := by
  have hkey : value.memberKey? union.tagName = value'.memberKey? union.tagName := by
    rw [Json.memberKey?, htag, ← Json.memberKey?]
  have hvalueKey : union.valueKey value = union.valueKey value' := by
    unfold UnionType.valueKey
    unfold UnionType.tagName at hkey
    cases hname : union.typeKey with
    | some name =>
      rw [hname, Option.getD_some] at hkey
      simp only [hvalue, hkey]
    | none =>
      rw [hname, Option.getD_none] at hkey
      simp only [hvalue, hkey]
      cases value'.memberKey? typeField with
      | none => rfl
      | some key =>
        cases h : value.memberKey? valueField <;> cases h' : value'.memberKey? valueField <;>
          simp_all
  rw [UnionType.typeOfValue, hvalueKey, ← UnionType.typeOfValue]

/-- Members of reordered values are both truthy or not. -/
theorem isSome_memberKey?_of_rel {name : String}
    (h : Option.Rel Json.Reordered (value.member? name) (value'.member? name)) :
    (value.memberKey? name).isSome = (value'.memberKey? name).isSome := by
  unfold Json.memberKey?
  generalize value.member? name = found at *
  generalize value'.member? name = found' at *
  cases h with
  | none => rfl
  | @some member member' hmember =>
    simp only [Option.filter, hmember.isTruthy_eq]
    cases member'.isTruthy <;> rfl

/-- A string is a member of both or of none. -/
theorem string_iff_of_rel {name text : String}
    (h : Option.Rel Json.Reordered (value.member? name) (value'.member? name)) :
    value.member? name = some (.string text) ↔ value'.member? name = some (.string text) := by
  generalize value.member? name = found at *
  generalize value'.member? name = found' at *
  cases h with
  | none => exact .rfl
  | some hmember =>
    rw [Option.some.injEq, Option.some.injEq]
    constructor
    · rintro rfl
      exact hmember.eq_of_string
    · rintro rfl
      exact hmember.eq_of_string'

/-- The tags of reordered values are the same if they are strings. -/
theorem tag_eq_of_isTagged {p : String → Prop} {name : String} (htagged : value.IsTagged p)
    (hname : p name) (h : value.Reordered value') : value.member? name = value'.member? name := by
  have hrel := h.member? htagged name
  cases hmember : value.member? name with
  | none =>
    rw [hmember] at hrel
    generalize value'.member? name = found' at *
    cases hrel
    rfl
  | some tag =>
    obtain ⟨text, rfl⟩ := htagged.string hname hmember
    exact ((string_iff_of_rel hrel).mp hmember).symm

/-- A wrapper that conforms to the candidate that it names has a string for a tag. -/
theorem tag_of_conforms {registry : Registry} {type : NamedType}
    (hunion : (InputType.named (.union union)).Declared) (hkey : union.typeKey = none)
    (htype : union.typeOfValue value = .ok type)
    (hconforms : (InputType.named type).Conforms registry value) :
    ∃ text, value.member? union.tagName = some (.string text) := by
  obtain ⟨key, hreads, hfind⟩ := typeOfValue_eq_ok_iff.mp htype
  cases hunion with
  | union hvalue hliteral hlookup hentries hwrapped =>
    rw [hlookup] at hfind
    cases hfind with
    | table hentry =>
      obtain ⟨payload, hwrapper⟩ := hwrapped hkey _ (mem_of_lookup hentry)
      obtain rfl : type = .object (wrapperOf key payload) := hwrapper
      cases hreads with
      | function hfunction => simp [hvalue] at hfunction
      | typeKey _ hname => simp [hkey] at hname
      | wrapper _ _ htag htruthy hpayload hpresent =>
        obtain ⟨⟨text, rfl⟩, -⟩ :=
          (conforms_wrapperOf_iff ⟨htag, htruthy, hpayload, hpresent⟩).mp hconforms
        exact ⟨text, by rw [UnionType.tagName, hkey]; exact htag⟩

end Tags

/-! ## Conformance -/

section Conformance

variable {registry : Registry} {p : String → Prop}

theorem forall_mem_iff_of_forall₂ {α β : Type} {R : α → β → Prop} {P : α → Prop} {Q : β → Prop}
    {as : List α} {bs : List β} (h : List.Forall₂ R as bs)
    (hiff : ∀ a ∈ as, ∀ b, R a b → (P a ↔ Q b)) : (∀ a ∈ as, P a) ↔ ∀ b ∈ bs, Q b := by
  induction h with
  | nil => simp
  | cons hab _ ih =>
    obtain ⟨hfirst, hrest⟩ := List.forall_mem_cons.mp hiff
    rw [List.forall_mem_cons, List.forall_mem_cons, hfirst _ hab, ih hrest]

theorem fieldConforms_of_rel {members members' : List (String × Json)} {field : Field}
    (h : Option.Rel Json.Reordered (members.lookup field.name) (members'.lookup field.name))
    (hgiven : ∀ value, members.lookup field.name = some value → ∀ value', value.Reordered value' →
      (field.type.Conforms registry value ↔ field.type.Conforms registry value')) :
    FieldConforms registry members field ↔ FieldConforms registry members' field := by
  unfold FieldConforms
  generalize hlookup : members.lookup field.name = found at *
  generalize members'.lookup field.name = found' at *
  cases h with
  | none => simp
  | some hvalue => simpa using hgiven _ rfl _ hvalue

/-- With the same tag, values conform to a union alike if they do to the candidate of the tag. -/
theorem candidate_iff_of_tag {union : UnionType} {value value' : Json}
    (hvalue : union.keyOfValue = none)
    (hpayload : (value.memberKey? valueField).isSome = (value'.memberKey? valueField).isSome)
    (hcandidate : ∀ type, union.typeOfValue value = .ok type →
      ((InputType.named type).Conforms registry value ↔
        (InputType.named type).Conforms registry value'))
    (htag : value.member? union.tagName = value'.member? union.tagName) :
    (∃ type, union.typeOfValue value = .ok type ∧
        (InputType.named type).Conforms registry value) ↔
      ∃ type, union.typeOfValue value' = .ok type ∧
        (InputType.named type).Conforms registry value' := by
  rw [← typeOfValue_eq_of_tag hvalue htag hpayload]
  exact exists_congr fun type => and_congr_right fun htype => hcandidate type htype

/-- Reordered values conform to a union alike if they do to its candidates. Their tags are the same:
under a type key they are strings, and a wrapper that conforms has a string for a tag. -/
theorem conforms_union_of_reordered {union : UnionType} {value value' : Json}
    (hunion : (InputType.named (.union union)).Declared)
    (hkeys : ∀ key, union.typeKey = some key → p key) (htagged : value.IsTagged p)
    (hnull : value ≠ .null) (h : value.Reordered value')
    (hcandidate : ∀ type, union.typeOfValue value = .ok type →
      ((InputType.named type).Conforms registry value ↔
        (InputType.named type).Conforms registry value')) :
    (InputType.named (.union union)).Conforms registry value ↔
      (InputType.named (.union union)).Conforms registry value' := by
  have hvalue : union.keyOfValue = none := by
    cases hunion
    assumption
  rw [conforms_union_iff hnull, conforms_union_iff (mt h.eq_null_iff.mpr hnull)]
  have hpayload := isSome_memberKey?_of_rel (h.member? htagged valueField)
  have hsame := candidate_iff_of_tag hvalue hpayload hcandidate
  cases hkey : union.typeKey with
  | some key =>
    have hname : p union.tagName := by
      rw [UnionType.tagName, hkey]
      exact hkeys key hkey
    exact hsame (tag_eq_of_isTagged htagged hname h)
  | none =>
    have htext : ∀ text, value.member? union.tagName = some (.string text) ↔
        value'.member? union.tagName = some (.string text) :=
      fun _ => string_iff_of_rel (h.member? htagged union.tagName)
    constructor
    · rintro ⟨type, htype, hconforms⟩
      obtain ⟨text, htag⟩ := tag_of_conforms hunion hkey htype hconforms
      exact (hsame (htag.trans ((htext text).mp htag).symm)).mp ⟨type, htype, hconforms⟩
    · rintro ⟨type, htype, hconforms⟩
      obtain ⟨text, htag⟩ := tag_of_conforms hunion hkey htype hconforms
      exact (hsame (((htext text).mpr htag).trans htag.symm)).mpr ⟨type, htype, hconforms⟩

/-- **Reordered values conform to the same types.** The types are those of a closed registry of
declared types, in which all type keys are among the names of tags. -/
theorem conforms_of_reordered (hclosed : registry.Closed)
    (hdeclared : ∀ type ∈ registry.types, (InputType.named type).Declared)
    (hkeys : ∀ union, .union union ∈ registry.types → ∀ key, union.typeKey = some key → p key)
    {type : InputType} {value value' : Json} (hcovers : registry.Covers type)
    (htagged : value.IsTagged p) (h : value.Reordered value') :
    type.Conforms registry value ↔ type.Conforms registry value' := by
  induction type, value using valueInduction registry generalizing value' with
  | null type =>
    obtain rfl := h.eq_null_iff.mp rfl
    exact .rfl
  | nonNull inner value hnull ih =>
    rw [conforms_nonNull_iff, conforms_nonNull_iff, ih (hclosed.step hcovers .inner) htagged h,
      ne_eq, ne_eq, h.eq_null_iff]
  | reference name value hnull ih =>
    have hnull' : value' ≠ .null := mt h.eq_null_iff.mpr hnull
    rw [conforms_reference_iff hnull, conforms_reference_iff hnull']
    refine exists_congr fun type => and_congr_right fun hget => ?_
    exact ih type hget (hclosed.step hcovers (.target hget)) htagged h
  | array item items ih =>
    have hitem := hclosed.step hcovers .item
    cases h with
    | same => exact .rfl
    | array hitems =>
      rw [conforms_array_iff, conforms_array_iff]
      exact forall_mem_iff_of_forall₂ hitems fun value hmem value' hvalue =>
        ih value hmem hitem (htagged.item hmem) hvalue
  | lone item value hnull harray ih =>
    have hnull' : value' ≠ .null := mt h.eq_null_iff.mpr hnull
    have harray' : ∀ items, value' ≠ .array items := by
      rintro items rfl
      cases h with
      | same => exact harray _ rfl
      | array => exact harray _ rfl
    rw [conforms_lone_iff hnull harray, conforms_lone_iff hnull' harray',
      ih (hclosed.step hcovers .item) htagged h]
  | builtin scalar value hnull =>
    cases h with
    | same => exact .rfl
    | _ => cases scalar <;> simp [conforms_builtin_iff, Builtin.Accepts]
  | enum enum value hnull =>
    cases h with
    | same => exact .rfl
    | _ => simp [conforms_enum_iff]
  | object object members ih =>
    have hdistinct := htagged.distinct members .here
    cases h with
    | same => exact .rfl
    | @object _ _ members' hperm hnames hvalues =>
      have h : (Json.object members).Reordered (.object members') := .object hperm hnames hvalues
      have hnames : (∀ member ∈ members, ∃ field ∈ object.fields, field.name = member.1) ↔
          ∀ member ∈ members', ∃ field ∈ object.fields, field.name = member.1 := by
        rw [← List.forall_mem_map (f := Prod.fst)
          (P := fun name => ∃ field ∈ object.fields, field.name = name), ← List.forall_mem_map
          (f := Prod.fst) (P := fun name => ∃ field ∈ object.fields, field.name = name)]
        exact forall_congr' fun name => by rw [h.names.mem_iff]
      rw [conforms_object_iff, conforms_object_iff, hnames]
      refine and_congr_right fun _ => forall₂_congr fun field hmem => ?_
      refine fieldConforms_of_rel (h.lookup hdistinct field.name) fun part hlookup part' hpart => ?_
      exact ih field hmem part hlookup (hclosed.step hcovers (.field hmem))
        (htagged.member hlookup) hpart
  | other object value hnull hobject =>
    have hnull' : value' ≠ .null := mt h.eq_null_iff.mpr hnull
    have hobject' : ∀ members, value' ≠ .object members := by
      rintro members rfl
      cases h with
      | same => exact hobject _ rfl
      | object => exact hobject _ rfl
    exact iff_of_false (not_conforms_object hnull hobject) (not_conforms_object hnull' hobject')
  | union union value hnull ih =>
    have hmem : .union union ∈ registry.types := by
      cases hcovers
      assumption
    refine conforms_union_of_reordered (hdeclared _ hmem) (hkeys union hmem) htagged hnull h
      fun type htype => ?_
    exact ih type htype (hclosed.step hcovers (.candidate (offers_of_typeOfValue htype))) htagged h

/-- A union takes the values other than null that conform to it. -/
theorem exists_parseValue_iff_conforms {union : UnionType} {value : Json} (hnull : value ≠ .null) :
    (∃ out, union.parseValue registry value = .ok out) ↔
      (InputType.named (.union union)).Conforms registry value := by
  simp only [conforms_union_iff hnull, parseValue_eq_ok_iff, coerce_eq_ok_iff]
  grind

/-- A registered union takes a value in any order of members. -/
theorem exists_parseValue_iff_of_reordered (hclosed : registry.Closed)
    (hdeclared : ∀ type ∈ registry.types, (InputType.named type).Declared)
    (hkeys : ∀ union, .union union ∈ registry.types → ∀ key, union.typeKey = some key → p key)
    {union : UnionType} (hmem : .union union ∈ registry.types) {value value' : Json}
    (htagged : value.IsTagged p) (h : value.Reordered value') :
    (∃ out, union.parseValue registry value = .ok out) ↔
      ∃ out, union.parseValue registry value' = .ok out := by
  by_cases hnull : value = .null
  · obtain rfl := h.eq_null_iff.mp hnull
    rw [hnull]
  · rw [exists_parseValue_iff_conforms hnull,
      exists_parseValue_iff_conforms (mt h.eq_null_iff.mpr hnull)]
    exact conforms_of_reordered hclosed hdeclared hkeys (.registered hmem) htagged h

end Conformance

end TaggedUnion
