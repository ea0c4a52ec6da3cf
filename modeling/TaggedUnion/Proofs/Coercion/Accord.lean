import TaggedUnion.Proofs.Decimal.Int32
import TaggedUnion.Proofs.Decimal.Written
import TaggedUnion.Proofs.Literal.Rendering
import TaggedUnion.Proofs.Literal.Spans

/-!
# Accord of literals and runtime values

Under types without unions, the check of a value and the conversion of the literal that it is
written as decide alike, although one collects all errors and the other stops at the first refusal.

* `NamedType.IsPlain`: types without unions, of which all that is named can be written.
* `Accord`: a conversion and a check that decide alike.
* `convert_rendered_iff_coerce`: both modes decide alike, and away from `Float` they give the same.
-/

namespace TaggedUnion

/-- Types that are not unions and whose enum values can be written in a literal. The fields of an
object have distinct names, which adding them one by one sees to. -/
def NamedType.IsPlain : NamedType → Prop
  | .builtin _ => True
  | .union _ => False
  | .object o => (o.fields.map Field.name).Nodup
  | .enum e => ∀ value ∈ e.values, Text.isBareName value

/-! ## Accord of the two modes -/

/-- A conversion and a check that decide alike and, if `exact` holds, give the same. -/
inductive Accord {α : Type} (exact : Prop) : Option α → Checked α → Prop where
  | accept {a b : α} (hsame : exact → a = b) : Accord exact (some a) (.ok b)
  | refuse {errors : List CoercionError} : Accord exact none (.error errors)

namespace Accord

variable {α β γ : Type} {exact exact' : Prop}

theorem isSome_iff {converted : Option α} {checked : Checked α}
    (h : Accord exact converted checked) : converted.isSome ↔ ∃ out, checked = .ok out := by
  cases h <;> simp

theorem eq_toOption {converted : Option α} {checked : Checked α}
    (h : Accord exact converted checked) (hexact : exact) : converted = checked.toOption := by
  cases h with
  | accept hsame => rw [hsame hexact]; rfl
  | refuse => rfl

theorem mono {converted : Option α} {checked : Checked α} (himp : exact → exact')
    (h : Accord exact' converted checked) : Accord exact converted checked := by
  cases h with
  | accept hsame => exact .accept fun hexact => hsame (himp hexact)
  | refuse => exact .refuse

theorem map {converted : Option α} {checked : Checked α} (f : α → β)
    (h : Accord exact converted checked) : Accord exact (converted.map f) (checked.map f) := by
  cases h with
  | accept hsame => exact .accept fun hexact => congrArg f (hsame hexact)
  | refuse => exact .refuse

theorem under {converted : Option α} {checked : Checked α} {segment : PathSegment}
    (h : Accord exact converted checked) :
    Accord exact converted (Checked.under segment checked) := by
  cases h with
  | accept hsame => exact .accept hsame
  | refuse => exact .refuse

/-- A conversion that stops at the first refusal accords with a check that goes on. -/
theorem both {first : Option α} {second : Option β} {checked : Checked α} {checked' : Checked β}
    (combine : α → β → γ) (h : Accord exact first checked) (h' : Accord exact second checked') :
    Accord exact (first.bind fun a => second.map (combine a))
      (Checked.both combine checked checked') := by
  cases h with
  | accept hsame =>
    cases h' with
    | accept hsame' => exact .accept fun hexact => by rw [hsame hexact, hsame' hexact]
    | refuse => exact .refuse
  | refuse => cases h' <;> exact .refuse

end Accord

/-! ## Built-in scalars and enums -/

/-- A built-in scalar reads a value and its literal alike. Only `Float` holds them differently. -/
theorem Builtin.parse_accord {registry : Registry} {source : Source} {scalar : Builtin}
    {value : Json} (hnull : value ≠ .null) (hvalue : value.IsIntegral) :
    Accord (scalar ≠ .float)
      (scalar.parseLiteral source
        (value.rendered registry (some (.named (.builtin scalar))))).toOption
      ((scalar.parseValue value).mapError fun error => [.here (.scalar scalar.name error)]) := by
  cases hvalue with
  | null => exact absurd rfl hnull
  | bool => cases scalar <;> first | exact .refuse | exact .accept fun _ => rfl
  | array => cases scalar <;> exact .refuse
  | object => cases scalar <;> exact .refuse
  | string =>
    cases scalar <;> first | exact .refuse | exact .accept fun _ => rfl
  | @integer i hlow hhigh =>
    cases scalar with
    | int =>
      simp only [parseLiteral, Json.rendered, intOfSpelling_intText, parseValue, intOfNumber,
        int32?_integer]
      by_cases hint : isInt32 i
      · simp only [hint, ↓reduceIte]
        exact .accept fun _ => rfl
      · simp only [hint, Bool.false_eq_true, ↓reduceIte]
        exact .refuse
    | float =>
      obtain ⟨x, hx⟩ := floatOfSpelling_intText hlow hhigh
      simp only [parseLiteral, Json.rendered, hx, parseValue]
      exact .accept fun hfloat => absurd rfl hfloat
    | id => exact .accept fun _ => rfl
    | _ => exact .refuse

/-- An enum whose values are bare names takes a string and its literal alike. -/
theorem EnumType.accord {registry : Registry} {enum : EnumType} {value : Json} {exact : Prop}
    (hnull : value ≠ .null) (henum : ∀ name ∈ enum.values, Text.isBareName name) :
    Accord exact (enum.convert (value.rendered registry (some (.named (.enum enum)))))
      (enum.coerce value) := by
  cases value with
  | null => exact absurd rfl hnull
  | string text =>
    have hrendered : Json.rendered registry (some (.named (.enum enum))) (.string text) =
        if Text.isBareName text then ⟨.enum text, default⟩ else ⟨.string text, default⟩ := rfl
    rw [hrendered]
    by_cases hbare : Text.isBareName text
    · simp only [hbare, ↓reduceIte, convert, coerce]
      by_cases hmem : text ∈ enum.values
      · simp only [hmem, ↓reduceIte]
        exact .accept fun _ => rfl
      · simp only [hmem, ↓reduceIte]
        exact .refuse
    · -- A text that cannot stand bare is none of the values.
      have hmem : text ∉ enum.values := fun hmem => hbare (henum text hmem)
      simp only [hbare, hmem, Bool.false_eq_true, ↓reduceIte, convert, coerce]
      exact .refuse
  | number n => cases n <;> exact .refuse
  | _ => exact .refuse

/-! ## The two modes -/

section

variable {registry : Registry} {source : Source} {value : Json}

/-- A field whose name is not repeated is the one that is found under its name. -/
theorem field?_eq_some {object : ObjectType} {field : Field}
    (hnodup : (object.fields.map Field.name).Nodup) (hmem : field ∈ object.fields) :
    object.field? field.name = some field := by
  unfold ObjectType.field?
  generalize object.fields = fields at hnodup hmem
  induction fields with
  | nil => simp at hmem
  | cons other rest ih =>
    rw [List.map_cons, List.nodup_cons] at hnodup
    rcases List.mem_cons.mp hmem with rfl | hrest
    · simp
    · have hname : other.name ≠ field.name := fun h =>
        hnodup.1 (h ▸ List.mem_map_of_mem hrest)
      rw [List.find?_cons_of_neg (by simpa using hname)]
      exact ih hnodup.2 hrest

/-- The fields of a literal and the members of a value accord if the given ones do. -/
theorem fields_accord {exact : Prop} {given : List Literal.Field} {members : List (String × Json)}
    {fields : List Field} (hfields : ∀ field ∈ fields, Accord exact
      (convertField registry source given field) (coerceField registry members field)) :
    Accord exact (convertFields registry source given fields)
      (coerceFields registry members fields) := by
  induction fields with
  | nil =>
    rw [convertFields_nil]
    exact .accept fun _ => rfl
  | cons field rest ih =>
    simp only [List.mem_cons, forall_eq_or_imp] at hfields
    rw [convertFields_cons, coerceFields_cons]
    exact hfields.1.both _ (ih hfields.2)

theorem items_accord {exact : Prop} {item type : InputType} {items : List Json}
    (hitems : ∀ value ∈ items, Accord exact
      (item.convert registry source (value.rendered registry (some type)))
      (item.coerce registry value)) {index : Nat} :
    Accord exact (convertItems registry source item (items.map (·.rendered registry (some type))))
      (coerceItems registry item index items) := by
  induction items generalizing index with
  | nil =>
    rw [List.map_nil, convertItems_nil]
    exact .accept fun _ => rfl
  | cons value rest ih =>
    simp only [List.mem_cons, forall_eq_or_imp] at hitems
    rw [List.map_cons, convertItems_cons]
    exact hitems.1.under.both _ (ih hitems.2)

/-- What is left out accords in both modes. -/
theorem absentField_accord {exact : Prop} {field : Field} :
    Accord exact (defaultMember? field) (absentField field) := by
  unfold defaultMember? absentField
  cases field.default? with
  | some value => exact .accept fun _ => rfl
  | none =>
    cases field.type.isNonNull with
    | true => exact .refuse
    | false => exact .accept fun _ => rfl

theorem field_accord {exact : Prop} {object : ObjectType} {members : List (String × Json)}
    {field : Field} (hnodup : (object.fields.map Field.name).Nodup) (hmem : field ∈ object.fields)
    (hgiven : ∀ value, members.lookup field.name = some value → Accord exact
      (field.type.convert registry source (value.rendered registry (some field.type)))
      (field.type.coerce registry value)) :
    Accord exact
      (convertField registry source
        (members.map (renderedMember registry (.named (.object object)))) field)
      (coerceField registry members field) := by
  unfold convertField coerceField
  rw [find?_renderedMembers]
  cases hlookup : members.lookup field.name with
  | none => exact absentField_accord
  | some value =>
    have hmember : (InputType.named (.object object)).member? registry field.name =
        some field.type := by
      simp [InputType.member?, InputType.core?, field?_eq_some hnodup hmem]
    simp only [Option.map_some, renderedMember, hmember]
    exact ((hgiven value hlookup).map _).under

theorem object_accord {exact : Prop} {object : ObjectType} {members : List (String × Json)}
    (hnodup : (object.fields.map Field.name).Nodup) (hgiven : ∀ field ∈ object.fields, ∀ value,
      members.lookup field.name = some value → Accord exact
        (field.type.convert registry source (value.rendered registry (some field.type)))
        (field.type.coerce registry value)) :
    Accord exact
      ((InputType.named (.object object)).convert registry source
        (Json.rendered registry (some (.named (.object object))) (.object members)))
      ((InputType.named (.object object)).coerce registry (.object members)) := by
  have hfields : Accord exact
      (convertFields registry source
        (members.map (renderedMember registry (.named (.object object)))) object.fields)
      (coerceFields registry members object.fields) :=
    fields_accord fun field hmem => field_accord hnodup hmem (hgiven field hmem)
  have hall : (members.map (renderedMember registry (.named (.object object)))).all
      (fun field => (object.field? field.name.text).isSome) ↔
        undeclared object members = .ok () := by
    have hfield : ∀ name,
        (object.field? name).isSome ↔ ∃ field ∈ object.fields, field.name = name := by
      simp [ObjectType.field?]
    rw [undeclared_eq_ok_iff, List.all_eq_true, List.forall_mem_map]
    exact forall_congr' fun member => imp_congr_right fun _ => hfield member.1
  rw [convert_object rfl, coerce_object, renderedMembers_eq_map]
  cases hundeclared : undeclared object members with
  | ok u =>
    rw [if_pos (hall.mpr hundeclared), Checked.both_ok]
    exact hfields.map _
  | error errors =>
    rw [if_neg fun h => by simp [hall.mp h] at hundeclared]
    cases coerceFields registry members object.fields <;> exact .refuse

/-- Under a type without unions, a value and the literal that it is written as accord. -/
theorem accord_rendered (source : Source) {type : InputType}
    (hplain : type.AllReached registry NamedType.IsPlain) (hvalue : value.IsIntegral) :
    Accord (type.AllReached registry (· ≠ .builtin .float))
      (type.convert registry source (value.rendered registry (some type)))
      (type.coerce registry value) := by
  induction type, value using valueInduction registry with
  | null type =>
    cases type with
    | nonNull inner =>
      rw [convert_null_nonNull rfl, coerce_null_nonNull]
      exact .refuse
    | _ =>
      rw [convert_null rfl rfl, coerce_null rfl]
      exact .accept fun _ => rfl
  | nonNull inner value hnull ih =>
    have hrendered : value.rendered registry (some (.nonNull inner)) =
        value.rendered registry (some inner) := rendered_congr rfl (.inl rfl)
    rw [convert_nonNull_of_ne_null (rendered_ne_null hnull), coerce_nonNull hnull, hrendered]
    exact (ih hplain.inner hvalue).mono fun h => h.inner
  | reference name value hnull ih =>
    rw [convert_reference (rendered_ne_null hnull)]
    cases hget : registry.get? name with
    | none =>
      rw [coerce_reference_none hnull hget]
      exact .refuse
    | some target =>
      have hrendered : value.rendered registry (some (.reference name)) =
          value.rendered registry (some (.named target)) := rendered_congr hget (.inl rfl)
      rw [coerce_reference_some hnull hget, hrendered]
      exact (ih target hget (hplain.target hget) hvalue).mono fun h => h.target hget
  | array item items ih =>
    cases hvalue with
    | array hitems =>
      rw [convert_list rfl, coerce_array, Option.bind_some, renderedItems_eq_map]
      refine (items_accord fun value hmem => ?_).map _
      exact (ih value hmem hplain.item (hitems value hmem)).mono fun h => h.item
  | lone item value hnull harray ih =>
    have hlist : ∀ nodes, (value.rendered registry (some (.list item))).value ≠ .list nodes :=
      fun nodes h => (rendered_value_iff.2.1.mp ⟨nodes, h⟩).elim harray
    have hrendered : value.rendered registry (some (.list item)) =
        value.rendered registry (some item) := rendered_congr rfl (.inr harray)
    rw [convert_lone (rendered_ne_null hnull) hlist, coerce_lone hnull harray, hrendered]
    exact ((ih hplain.item hvalue).mono fun h => h.item).map _
  | builtin scalar value hnull =>
    rw [convert_builtin (rendered_ne_null hnull), coerce_builtin hnull]
    exact (Builtin.parse_accord hnull hvalue).mono fun h hfloat => h.here (congrArg _ hfloat)
  | enum enum value hnull =>
    rw [convert_enum (rendered_ne_null hnull), coerce_enum hnull]
    exact EnumType.accord hnull hplain.here
  | object object members ih =>
    cases hvalue with
    | object hmembers =>
      refine object_accord hplain.here fun field hmem value hlookup => ?_
      have hintegral : value.IsIntegral := hmembers (field.name, value) (mem_of_lookup hlookup)
      exact (ih field hmem value hlookup (hplain.field hmem) hintegral).mono fun h => h.field hmem
  | other object value hnull hobject =>
    have hgiven : ∀ given,
        (value.rendered registry (some (.named (.object object)))).value ≠ .object given :=
      fun given h => (rendered_value_iff.2.2.mp ⟨given, h⟩).elim hobject
    rw [convert_not_object (rendered_ne_null hnull) hgiven, coerce_not_object hnull hobject]
    exact .refuse
  | union union value hnull ih => exact absurd hplain.here id

/-- **Literals and runtime values.** Where no union decides and all numbers are held as integers, a
value is accepted exactly if the literal that it is written as is, wherever that stands. Unless the
type leads to `Float`, both become the same. -/
theorem convert_rendered_iff_coerce {type : InputType} {node : Literal.Node}
    (hplain : type.AllReached registry NamedType.IsPlain) (hvalue : value.IsIntegral)
    (hnode : node.spanless = value.rendered registry (some type)) :
    ((type.convert registry source node).isSome ↔ ∃ out, type.coerce registry value = .ok out) ∧
      (type.AllReached registry (· ≠ .builtin .float) →
        type.convert registry source node = (type.coerce registry value).toOption) := by
  have haccord := accord_rendered source hplain hvalue
  have hunions : type.AllReached registry fun reached => ∀ union, reached ≠ .union union := by
    rintro _ hreached union rfl
    exact hplain _ hreached
  rw [← hnode, convert_spanless source hunions] at haccord
  exact ⟨haccord.isSome_iff, haccord.eq_toOption⟩

/-- A person with a friend who is a person, given as a value and in text. -/
theorem convert_rendered_iff_coerce_person :
    let person : ObjectType := ⟨"person", none, [⟨"friend", .reference "person", none, none⟩]⟩
    let registry : Registry := ⟨[.object person]⟩
    let value : Json := .object [("friend", .object [("friend", .null)])]
    let node : Literal.Node := ⟨.object [⟨⟨"friend", ⟨1, 7⟩⟩,
      ⟨.object [⟨⟨"friend", ⟨10, 16⟩⟩, ⟨.null, ⟨18, 22⟩⟩, ⟨10, 22⟩⟩], ⟨9, 23⟩⟩, ⟨1, 23⟩⟩], ⟨0, 24⟩⟩
    (InputType.reference "person").convert registry ⟨"", ""⟩ node =
      ((InputType.reference "person").coerce registry value).toOption := by
  intro person registry value node
  -- The type leads back to itself, and to nothing else.
  have hreached : ∀ (type : InputType) (reached : NamedType), type.Reaches registry reached →
      type = .reference "person" ∨ type = .named (.object person) → reached = .object person := by
    intro type reached hreaches
    induction hreaches with
    | here => simp
    | list => simp
    | nonNull => simp
    | @reference name target _ hget _ ih =>
      intro htype
      obtain rfl : name = "person" := by simpa using htype
      obtain ⟨-, rfl⟩ : (NamedType.object person).name = "person" ∧ .object person = target := by
        simpa [registry, Registry.get?] using hget
      exact ih (.inr rfl)
    | @field object field _ hmem _ ih =>
      intro htype
      obtain rfl : object = person := by simpa using htype
      obtain rfl : field = ⟨"friend", .reference "person", none, none⟩ := by
        simpa [person] using hmem
      exact ih (.inl rfl)
  have hvalue : value.IsIntegral := by
    refine .object fun member hmem => ?_
    obtain rfl : member = ("friend", .object [("friend", .null)]) := by simpa using hmem
    refine .object fun member hmem => ?_
    obtain rfl : member = ("friend", .null) := by simpa using hmem
    exact .null
  refine (convert_rendered_iff_coerce (fun reached h => ?_) hvalue rfl).2 fun reached h => ?_
  · rw [hreached _ reached h (.inl rfl)]
    simp [NamedType.IsPlain, person]
  · rw [hreached _ reached h (.inl rfl)]
    simp

end

end TaggedUnion
