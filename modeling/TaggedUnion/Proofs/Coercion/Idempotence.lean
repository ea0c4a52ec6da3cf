import Mathlib
import TaggedUnion.Proofs.Coercion.Conformance
import TaggedUnion.Proofs.Schema.Declared

/-!
# Checking a value again

What the check makes of a value is checked again. Lists, numbers and names come out as they went in,
and a union keeps its values as they are; only defaults go into an object unseen. So the result is
accepted again, and left as it is, just if every default that was filled in is.

* `InputType.Keeps`: a type accepts a value and leaves it as it is.
* `FillsIn`: the defaults that the check of a value fills in.
* `keeps_normalized_iff`: what the check makes of a value is kept up to the defaults in it.
* `coerce_coerced_iff`: the same for the schema of a document.
-/

namespace TaggedUnion

/-- The types whose objects have distinct field names. -/
inductive InputType.HasDistinctFields : InputType → Prop where
  | reference {name : String} : HasDistinctFields (.reference name)
  | list {item : InputType} (hitem : HasDistinctFields item) : HasDistinctFields (.list item)
  | nonNull {inner : InputType} (hinner : HasDistinctFields inner) :
    HasDistinctFields (.nonNull inner)
  | builtin {scalar : Builtin} : HasDistinctFields (.named (.builtin scalar))
  | enum {enum : EnumType} : HasDistinctFields (.named (.enum enum))
  | object {object : ObjectType} (hdistinct : (object.fields.map Field.name).Nodup)
    (hfields : ∀ field ∈ object.fields, HasDistinctFields field.type) :
    HasDistinctFields (.named (.object object))
  /-- A union keeps its values, so nothing is asked of its candidates. -/
  | union {union : UnionType} : HasDistinctFields (.named (.union union))

/-- A value that a type accepts and leaves as it is. -/
def InputType.Keeps (registry : Registry) (value : Json) (type : InputType) : Prop :=
  type.coerce registry value = .ok value

/-- The check of a value fills in a default: it gets to an object in which the field is left
out. Inside the values of a union nothing is filled in. -/
inductive FillsIn (registry : Registry) : InputType → Json → Field → Json → Prop where
  | nonNull {inner : InputType} {value filler : Json} {field : Field}
    (h : FillsIn registry inner value field filler) :
    FillsIn registry (.nonNull inner) value field filler
  | reference {name : String} {target : NamedType} {value filler : Json} {field : Field}
    (hget : registry.get? name = some target)
    (h : FillsIn registry (.named target) value field filler) :
    FillsIn registry (.reference name) value field filler
  | item {item : InputType} {items : List Json} {part filler : Json} {field : Field}
    (hmem : part ∈ items) (h : FillsIn registry item part field filler) :
    FillsIn registry (.list item) (.array items) field filler
  | lone {item : InputType} {value filler : Json} {field : Field}
    (harray : ∀ items, value ≠ .array items) (h : FillsIn registry item value field filler) :
    FillsIn registry (.list item) value field filler
  | member {object : ObjectType} {members : List (String × Json)} {declared field : Field}
    {part filler : Json} (hmem : declared ∈ object.fields)
    (hlookup : members.lookup declared.name = some part)
    (h : FillsIn registry declared.type part field filler) :
    FillsIn registry (.named (.object object)) (.object members) field filler
  | absent {object : ObjectType} {members : List (String × Json)} {field : Field} {filler : Json}
    (hmem : field ∈ object.fields) (hlookup : members.lookup field.name = none)
    (hdefault : field.default? = some filler) :
    FillsIn registry (.named (.object object)) (.object members) field filler

theorem InputType.Declared.hasDistinctFields {type : InputType} (h : type.Declared) :
    type.HasDistinctFields := by
  induction h with
  | reference => exact .reference
  | list _ ih => exact .list ih
  | nonNull _ ih => exact .nonNull ih
  | builtin => exact .builtin
  | enum => exact .enum
  | object hdistinct _ ih => exact .object hdistinct ih
  | union => exact .union

section

variable {registry : Registry} {value : Json}

theorem keeps_iff {type : InputType} :
    type.Keeps registry value ↔
      type.Conforms registry value ∧ type.normalized registry value = value := by
  rw [InputType.Keeps, coerce_eq_ok_iff, eq_comm (a := value)]

/-- Only null becomes null. -/
theorem normalized_ne_null {type : InputType} (h : type.Conforms registry value)
    (hvalue : value ≠ .null) : type.normalized registry value ≠ .null := by
  induction h with
  | null => exact absurd rfl hvalue
  | nonNull _ _ ih =>
    rw [normalized_nonNull]
    exact ih hvalue
  | reference hget _ ih =>
    rw [normalized_reference hget]
    exact ih hvalue
  | items => simp [normalized_array]
  | lone harray => simp [normalized_lone hvalue harray]
  | object => simp [normalized_object]
  | enum => simp [InputType.normalized.eq_def]
  | @builtin scalar value haccepts =>
    rw [InputType.normalized.eq_def]
    cases scalar <;> cases value <;> simp_all [Builtin.normalized, Builtin.Accepts]
    grind
  | union =>
    rw [InputType.normalized.eq_def]
    exact hvalue

theorem keeps_array {item : InputType} {items : List Json} :
    (InputType.list item).Keeps registry (.array items) ↔
      ∀ value ∈ items, item.Keeps registry value := by
  have hmap : items.map (fun value => item.normalized registry value) = items ↔
      ∀ value ∈ items, item.normalized registry value = value := by
    simpa using List.map_inj_left (l := items) (g := id)
  simp only [keeps_iff, conforms_array_iff, normalized_array, Json.array.injEq, hmap, forall_and]

/-- What a built-in scalar makes of a value is left as it is. -/
theorem keeps_builtin_normalized {scalar : Builtin} (h : scalar.Accepts value) :
    (InputType.named (.builtin scalar)).Keeps registry (scalar.normalized value) := by
  have hkept : scalar.Accepts (scalar.normalized value) ∧
      scalar.normalized (scalar.normalized value) = scalar.normalized value := by
    cases scalar with
    | int =>
      obtain ⟨n, i, rfl, hvalue, hlow, hhigh⟩ := h
      have hnum : n.value.num = i := by rw [hvalue, Rat.num_intCast]
      simp only [Builtin.normalized, hnum]
      exact ⟨⟨_, i, rfl, rfl, hlow, hhigh⟩, by simp [Number.value]⟩
    | id =>
      rcases h with ⟨text, rfl⟩ | ⟨i, rfl⟩
      · exact ⟨.inl ⟨text, rfl⟩, rfl⟩
      · exact ⟨.inl ⟨_, rfl⟩, rfl⟩
    | _ => exact ⟨h, rfl⟩
  refine keeps_iff.mpr ⟨.builtin hkept.1, ?_⟩
  rw [InputType.normalized.eq_def]
  exact hkept.2

/-! ## Objects -/

/-- With distinct names, an object that is made of its fields has under each name what is made of
that field. -/
theorem lookup_filterMap_name {fields : List Field} {f : Field → Option (String × Json)}
    (hdistinct : (fields.map Field.name).Nodup)
    (hname : ∀ field member, f field = some member → member.1 = field.name) {field : Field}
    (hmem : field ∈ fields) :
    (fields.filterMap f).lookup field.name = (f field).map Prod.snd := by
  induction fields with
  | nil => simp at hmem
  | cons first rest ih =>
    obtain ⟨hnew, hdistinct⟩ := List.nodup_cons.mp hdistinct
    rw [List.filterMap_cons]
    rcases List.mem_cons.mp hmem with rfl | hrest
    · cases hfirst : f field with
      | some member =>
        obtain ⟨name, value⟩ := member
        obtain rfl : name = field.name := hname field _ hfirst
        simp
      | none =>
        -- The fields behind it have other names.
        refine List.lookup_eq_none_iff.mpr fun member hmember => ?_
        obtain ⟨other, hother, hmade⟩ := List.mem_filterMap.mp hmember
        have hne : field.name ≠ other.name := fun heq =>
          hnew (heq ▸ List.mem_map_of_mem hother)
        simpa [hname other member hmade] using hne
    · have hne : field.name ≠ first.name := fun heq => hnew (heq ▸ List.mem_map_of_mem hrest)
      cases hfirst : f first with
      | none => exact ih hdistinct hrest
      | some member =>
        obtain ⟨name, value⟩ := member
        obtain rfl : name = first.name := hname first _ hfirst
        rw [List.lookup_cons, beq_eq_false_iff_ne.mpr hne]
        exact ih hdistinct hrest

theorem normalizedField_name {members : List (String × Json)} {field : Field}
    {member : String × Json} (h : normalizedField registry members field = some member) :
    member.1 = field.name := by
  unfold normalizedField at h
  split at h
  · cases h
    rfl
  · obtain ⟨_, -, rfl⟩ := Option.map_eq_some_iff.mp h
    rfl

/-- The member that is made of a field has the name of the field. -/
theorem normalizedField_ext {members made : List (String × Json)} {field : Field}
    (h : (normalizedField registry made field).map Prod.snd =
      (normalizedField registry members field).map Prod.snd) :
    normalizedField registry made field = normalizedField registry members field := by
  have hpair : ∀ members : List (String × Json), normalizedField registry members field =
      ((normalizedField registry members field).map Prod.snd).map (field.name, ·) := by
    intro members
    cases hmade : normalizedField registry members field with
    | none => rfl
    | some member => simp [← normalizedField_name hmade]
  rw [hpair made, h, ← hpair members]

/-- A field is filled again with what stands in it, if that is kept. -/
theorem keeps_normalizedField {members made : List (String × Json)} {field : Field}
    (hfield : FieldConforms registry members field)
    (hmade : made.lookup field.name = (normalizedField registry members field).map Prod.snd) :
    (FieldConforms registry made field ∧
        (normalizedField registry made field).map Prod.snd =
          (normalizedField registry members field).map Prod.snd) ↔
      ∀ member, normalizedField registry members field = some member →
        field.type.Keeps registry member.2 := by
  cases hfirst : normalizedField registry members field with
  | some member =>
    rw [hfirst, Option.map_some] at hmade
    have hagain : normalizedField registry made field =
        some (field.name, field.type.normalized registry member.2) := by
      simp only [normalizedField, hmade]
    simp [FieldConforms, hmade, hagain, keeps_iff]
  | none =>
    rw [hfirst, Option.map_none] at hmade
    have hleft : members.lookup field.name = none ∧ field.default? = none := by
      unfold normalizedField at hfirst
      split at hfirst
      · simp at hfirst
      · exact ⟨‹_›, by simpa using hfirst⟩
    have hagain : normalizedField registry made field = none := by
      simp [normalizedField, hmade, hleft.2]
    simpa [FieldConforms, hmade, hagain] using hfield.2 hleft.1

/-- An object that was made is kept if what stands in each field is kept. -/
theorem keeps_object_normalized {object : ObjectType} {members : List (String × Json)}
    (hdistinct : (object.fields.map Field.name).Nodup)
    (hfields : ∀ field ∈ object.fields, FieldConforms registry members field) :
    (InputType.named (.object object)).Keeps registry
        (.object (object.fields.filterMap (normalizedField registry members))) ↔
      ∀ field ∈ object.fields, ∀ member, normalizedField registry members field = some member →
        field.type.Keeps registry member.2 := by
  have hlookup : ∀ made : List (String × Json), ∀ field ∈ object.fields,
      (object.fields.filterMap (normalizedField registry made)).lookup field.name =
        (normalizedField registry made field).map Prod.snd :=
    fun made field hmem => lookup_filterMap_name hdistinct (fun _ _ => normalizedField_name) hmem
  generalize hout : object.fields.filterMap (normalizedField registry members) = out
  have hlook : ∀ field ∈ object.fields,
      out.lookup field.name = (normalizedField registry members field).map Prod.snd :=
    hout ▸ hlookup members
  rw [keeps_iff, conforms_object_iff, normalized_object, Json.object.injEq]
  constructor
  · rintro ⟨⟨-, hconforms⟩, hsame⟩ field hmem
    refine (keeps_normalizedField (hfields field hmem) (hlook field hmem)).mp
      ⟨hconforms field hmem, ?_⟩
    rw [← hlookup out field hmem, hsame, hlook field hmem]
  · intro hkeeps
    have hagain := fun field hmem =>
      (keeps_normalizedField (hfields field hmem) (hlook field hmem)).mpr (hkeeps field hmem)
    refine ⟨⟨fun member hmember => ?_, fun field hmem => (hagain field hmem).1⟩, ?_⟩
    · rw [← hout] at hmember
      obtain ⟨field, hmem, hmade⟩ := List.mem_filterMap.mp hmember
      exact ⟨field, hmem, (normalizedField_name hmade).symm⟩
    · rw [← hout]
      exact List.filterMap_congr fun field hmem =>
        normalizedField_ext (hout ▸ (hagain field hmem).2)

/-! ## Defaults -/

/-- Nothing is filled in for a null. -/
theorem not_fillsIn_null {type : InputType} {field : Field} {filler : Json} :
    ¬FillsIn registry type .null field filler := by
  generalize hvalue : Json.null = value
  intro h
  induction h with
  | nonNull _ ih => exact ih hvalue
  | reference _ _ ih => exact ih hvalue
  | lone _ _ ih => exact ih hvalue
  | _ => cases hvalue

/-- **What the check made is kept up to defaults.** The induction goes by the check of the value,
not of what became of it: each step of the second check follows one of the first. -/
theorem keeps_normalized_iff {type : InputType}
    (hregistry : ∀ type ∈ registry.types, (InputType.named type).HasDistinctFields)
    (htype : type.HasDistinctFields) (hconforms : type.Conforms registry value) :
    type.Keeps registry (type.normalized registry value) ↔
      ∀ field filler, FillsIn registry type value field filler →
        field.type.Keeps registry filler := by
  induction type, value using valueInduction registry with
  | null type =>
    rw [normalized_null]
    have hnull : type.Keeps registry .null := keeps_iff.mpr ⟨hconforms, normalized_null type⟩
    exact iff_of_true hnull fun _ _ h => absurd h not_fillsIn_null
  | nonNull inner value hnull ih =>
    cases htype with
    | nonNull hinner =>
      obtain ⟨-, hinnerConforms⟩ := conforms_nonNull_iff.mp hconforms
      rw [normalized_nonNull, InputType.Keeps,
        coerce_nonNull (normalized_ne_null hinnerConforms hnull)]
      refine (ih hinner hinnerConforms).trans (forall₂_congr fun field filler => ?_)
      exact imp_congr_left ⟨.nonNull, fun h => by cases h; assumption⟩
  | reference name value hnull ih =>
    obtain ⟨target, hget, htarget⟩ := (conforms_reference_iff hnull).mp hconforms
    rw [normalized_reference hget, InputType.Keeps,
      coerce_reference_some (normalized_ne_null htarget hnull) hget]
    refine (ih target hget (hregistry target (Registry.get?_some hget).1) htarget).trans
      (forall₂_congr fun field filler => ?_)
    refine imp_congr_left ⟨.reference hget, fun h => ?_⟩
    cases h with
    | reference hget' h =>
      cases hget.symm.trans hget'
      exact h
  | array item items ih =>
    cases htype with
    | list hitem =>
      rw [conforms_array_iff] at hconforms
      rw [normalized_array, keeps_array, List.forall_mem_map]
      constructor
      · intro hkeeps field filler h
        cases h with
        | item hmem h =>
          exact (ih _ hmem hitem (hconforms _ hmem)).mp (hkeeps _ hmem) field filler h
        | lone harray => exact absurd rfl (harray items)
      · intro hfillers part hmem
        exact (ih part hmem hitem (hconforms part hmem)).mpr fun field filler h =>
          hfillers field filler (.item hmem h)
  | lone item value hnull harray ih =>
    cases htype with
    | list hitem =>
      rw [conforms_lone_iff hnull harray] at hconforms
      rw [normalized_lone hnull harray, keeps_array, List.forall_mem_singleton]
      refine (ih hitem hconforms).trans (forall₂_congr fun field filler => ?_)
      refine imp_congr_left ⟨.lone harray, fun h => ?_⟩
      cases h with
      | item => exact absurd rfl (harray _)
      | lone _ h => exact h
  | builtin scalar value hnull =>
    have haccepts := (conforms_builtin_iff hnull).mp hconforms
    rw [InputType.normalized.eq_def]
    exact iff_of_true (keeps_builtin_normalized haccepts) nofun
  | enum enum value hnull =>
    have hkept : (InputType.named (.enum enum)).normalized registry value = value := by
      rw [InputType.normalized.eq_def]
    rw [hkept]
    exact iff_of_true (keeps_iff.mpr ⟨hconforms, hkept⟩) nofun
  | object object members ih =>
    cases htype with
    | object hdistinct htypes =>
      obtain ⟨-, hfields⟩ := conforms_object_iff.mp hconforms
      rw [normalized_object, keeps_object_normalized hdistinct hfields]
      constructor
      · intro hkeeps filled filler h
        cases h with
        | @member _ _ field _ part _ hmem hlookup h =>
          have hpart := (hfields field hmem).1 part hlookup
          have hmade : normalizedField registry members field =
              some (field.name, field.type.normalized registry part) := by
            simp only [normalizedField, hlookup]
          exact (ih field hmem part hlookup (htypes field hmem) hpart).mp
            (hkeeps field hmem _ hmade) filled filler h
        | absent hmem hlookup hdefault =>
          have hmade : normalizedField registry members filled = some (filled.name, filler) := by
            simp only [normalizedField, hlookup, hdefault, Option.map_some]
          exact hkeeps filled hmem _ hmade
      · intro hfillers field hmem member hmade
        cases hlookup : members.lookup field.name with
        | some part =>
          have hpart := (hfields field hmem).1 part hlookup
          simp only [normalizedField, hlookup, Option.some.injEq] at hmade
          subst hmade
          exact (ih field hmem part hlookup (htypes field hmem) hpart).mpr
            fun filled filler h => hfillers filled filler (.member hmem hlookup h)
        | none =>
          simp only [normalizedField, hlookup] at hmade
          obtain ⟨filler, hdefault, rfl⟩ := Option.map_eq_some_iff.mp hmade
          exact hfillers field filler (.absent hmem hlookup hdefault)
  | other object value hnull hobject => exact absurd hconforms (not_conforms_object hnull hobject)
  | union union value hnull ih =>
    have hkept : (InputType.named (.union union)).normalized registry value = value := by
      rw [InputType.normalized.eq_def]
    rw [hkept]
    exact iff_of_true (keeps_iff.mpr ⟨hconforms, hkept⟩) nofun

end

namespace Document

/-- **Checking again.** Under a type over the registry of a schema, what the check made of a value
is accepted again and stays as it is just if every default that was filled in does so at the type of
its field. -/
theorem coerce_coerced_iff {document : Document} {schema : Schema}
    (hbuild : document.build = .ok schema) {type : InputType} (htype : type.HasDistinctFields)
    {value out : Json} (h : type.coerce schema.registry value = .ok out) :
    type.coerce schema.registry out = .ok out ↔
      ∀ field filler, FillsIn schema.registry type value field filler →
        field.type.coerce schema.registry filler = .ok filler := by
  obtain ⟨hconforms, rfl⟩ := (coerce_eq_ok_iff _ _ _ _).mp h
  have hregistry : ∀ type ∈ schema.registry.types, (InputType.named type).HasDistinctFields :=
    fun type hmem => ((declared_of_build hbuild).types type hmem).hasDistinctFields
  exact keeps_normalized_iff hregistry htype hconforms

/-- Notes have stars and tags. The default of the tags is a lone tag. -/
def noteDocument : Document :=
  ⟨[.object ⟨"Note", none, [("stars", ⟨"Int", none, some (.number (.integer 1))⟩),
    ("tags", ⟨"[String]", none, some (.string "new")⟩)]⟩]⟩

/-- The object type of notes. -/
def noteType : ObjectType :=
  ⟨"Note", none, [⟨"stars", .reference "Int", none, some (.number (.integer 1))⟩,
    ⟨"tags", .list (.reference "String"), none, some (.string "new")⟩]⟩

/-- The schema of notes. -/
def noteSchema : Schema := ⟨afterBuiltins [.object noteType], []⟩

theorem build_noteDocument : noteDocument.build = .ok noteSchema := by
  cbv

theorem coerce_coerced_iff_note : (InputType.reference "Note").coerce noteSchema.registry
    (.object [("stars", .number (.integer 1)), ("tags", .array [.string "old"])]) =
      .ok (.object [("stars", .number (.integer 1)), ("tags", .array [.string "old"])]) := by
  have hchecked : (InputType.reference "Note").coerce noteSchema.registry
      (.object [("tags", .string "old")]) =
        .ok (.object [("stars", .number (.integer 1)), ("tags", .array [.string "old"])]) := by
    cbv
  refine (coerce_coerced_iff build_noteDocument .reference hchecked).mpr ?_
  have hget : noteSchema.registry.get? "Note" = some (.object noteType) := by
    rfl
  -- Only the stars are left out, and one star is what an `Int` keeps.
  intro field filler hfills
  cases hfills with
  | reference hget' hfills =>
    cases hget.symm.trans hget'
    cases hfills with
    | member hmem hlookup hfills =>
      rcases List.mem_pair.mp hmem with rfl | rfl
      · cases hlookup
      · cases hlookup
        cases hfills with
        | lone _ hfills =>
          cases hfills with
          | reference hget hfills =>
            cases hget
            cases hfills
    | absent hmem hlookup hdefault =>
      rcases List.mem_pair.mp hmem with rfl | rfl
      · cases hdefault
        cbv
      · cases hlookup

/-- A default may conform to its field and still not stay as it is. -/
theorem not_coerce_coerced : ¬∀ (document : Document) (schema : Schema) (type : InputType)
    (value out : Json), document.build = .ok schema → type.HasDistinctFields →
      type.coerce schema.registry value = .ok out →
        type.coerce schema.registry out = .ok out := by
  intro h
  have hagain := h noteDocument noteSchema (.reference "Note") (.object [])
    (.object [("stars", .number (.integer 1)), ("tags", .string "new")]) build_noteDocument
    .reference (by cbv)
  have hlisted : (InputType.reference "Note").coerce noteSchema.registry
      (.object [("stars", .number (.integer 1)), ("tags", .string "new")]) =
        .ok (.object [("stars", .number (.integer 1)), ("tags", .array [.string "new"])]) := by
    cbv
  simp [hlisted] at hagain

end Document

end TaggedUnion
