import TaggedUnion.Proofs.Coercion.ReadBack

/-!
# Wider types

A type gets wider by more values of an enum, more candidates of a union, and more fields of an
object that may be left out. What a type takes, a wider one takes too.

* `FieldsExtend`, `InputType.Extends`, `Registry.Extends`: fields, types and registries that are
  wider than others.
* `InputType.Conforms.widen`: values that conform to a type conform to a wider one.
* `convert_widen`: a literal becomes the same under a wider type.
-/

namespace TaggedUnion

/-- Fields with more fields between them. The old ones keep their order, names and defaults, and the
new ones have no default and admit null. -/
inductive FieldsExtend (R : InputType → InputType → Prop) : List Field → List Field → Prop where
  | nil : FieldsExtend R [] []
  | kept {field field' : Field} {rest rest' : List Field} (hname : field'.name = field.name)
    (hdefault : field'.default? = field.default?) (htype : R field.type field'.type)
    (hrest : FieldsExtend R rest rest') : FieldsExtend R (field :: rest) (field' :: rest')
  | added {field : Field} {fields rest : List Field} (hdefault : field.default? = none)
    (hnull : field.type.isNonNull = false) (hrest : FieldsExtend R fields rest) :
    FieldsExtend R fields (field :: rest)

/-- Types that are wider than others. -/
inductive InputType.Extends : InputType → InputType → Prop where
  /-- What a name stands for may get wider too. -/
  | reference {name : String} : Extends (.reference name) (.reference name)
  | list {item item' : InputType} (hitem : Extends item item') : Extends (.list item) (.list item')
  | nonNull {inner inner' : InputType} (hinner : Extends inner inner') :
    Extends (.nonNull inner) (.nonNull inner')
  | builtin {scalar : Builtin} : Extends (.named (.builtin scalar)) (.named (.builtin scalar))
  | enum {enum enum' : EnumType} (hvalues : ∀ value ∈ enum.values, value ∈ enum'.values) :
    Extends (.named (.enum enum)) (.named (.enum enum'))
  | object {object object' : ObjectType} (hdistinct : (object'.fields.map Field.name).Nodup)
    (hfields : FieldsExtend Extends object.fields object'.fields) :
    Extends (.named (.object object)) (.named (.object object'))
  /-- Every key that had a candidate has one, and it is a wider one. -/
  | union {union union' : UnionType} {entries entries' : List (String × NamedType)}
    (hkey : union'.typeKey = union.typeKey) (hvalue : union.keyOfValue = none)
    (hvalue' : union'.keyOfValue = none) (hliteral : union.typeOfLiteral = none)
    (hliteral' : union'.typeOfLiteral = none) (hlookup : union.lookup = .table entries)
    (hlookup' : union'.lookup = .table entries')
    (hkeys : ∀ key, (entries.lookup key).isSome → (entries'.lookup key).isSome)
    (hentries : ∀ key type type', entries.lookup key = some type →
      entries'.lookup key = some type' → Extends (.named type) (.named type')) :
    Extends (.named (.union union)) (.named (.union union'))

/-- Every name that is registered stands for a wider type. -/
def Registry.Extends (registry registry' : Registry) : Prop :=
  ∀ name type, registry.get? name = some type →
    ∃ type', registry'.get? name = some type' ∧ (InputType.named type).Extends (.named type')

/-! ## Fields -/

section Fields

variable {R : InputType → InputType → Prop} {fields fields' : List Field}

/-- A field in its old and its new form. -/
structure FieldKept (R : InputType → InputType → Prop) (field field' : Field) : Prop where
  name : field'.name = field.name
  default : field'.default? = field.default?
  type : R field.type field'.type

theorem FieldsExtend.exists_kept (h : FieldsExtend R fields fields') :
    ∀ field ∈ fields, ∃ field' ∈ fields', FieldKept R field field' := by
  induction h with
  | nil => nofun
  | kept hname hdefault htype _ ih =>
    refine List.forall_mem_cons.mpr ⟨⟨_, List.mem_cons_self, hname, hdefault, htype⟩, ?_⟩
    intro field hmem
    obtain ⟨field', hmem', hkept⟩ := ih field hmem
    exact ⟨field', List.mem_cons_of_mem _ hmem', hkept⟩
  | added _ _ _ ih =>
    intro field hmem
    obtain ⟨field', hmem', hkept⟩ := ih field hmem
    exact ⟨field', List.mem_cons_of_mem _ hmem', hkept⟩

theorem FieldsExtend.names_subset (h : FieldsExtend R fields fields') {name : String}
    (hname : name ∈ fields.map Field.name) : name ∈ fields'.map Field.name := by
  obtain ⟨field, hmem, rfl⟩ := List.mem_map.mp hname
  obtain ⟨field', hmem', hkept⟩ := h.exists_kept field hmem
  exact List.mem_map.mpr ⟨field', hmem', hkept.name⟩

/-- A field of the new ones is kept, or it is left out wherever only the old ones are given. -/
theorem FieldsExtend.kept_or_added (h : FieldsExtend R fields fields')
    (hdistinct : (fields'.map Field.name).Nodup) : ∀ field' ∈ fields',
      (∃ field ∈ fields, FieldKept R field field') ∨
        (field'.name ∉ fields.map Field.name ∧ field'.type.isNonNull = false) := by
  induction h with
  | nil => nofun
  | @kept field field' rest rest' hname hdefault htype _ ih =>
    obtain ⟨hnew, hdistinct⟩ := List.nodup_cons.mp hdistinct
    refine List.forall_mem_cons.mpr ⟨.inl ⟨_, List.mem_cons_self, hname, hdefault, htype⟩, ?_⟩
    intro other hmem
    rcases ih hdistinct other hmem with ⟨old, hmem, hkept⟩ | ⟨hother, hnull⟩
    · exact .inl ⟨old, List.mem_cons_of_mem _ hmem, hkept⟩
    · have hne : other.name ≠ field.name := by
        rw [← hname]
        exact fun hsame => hnew (hsame ▸ List.mem_map_of_mem hmem)
      exact .inr ⟨by simp [hne, hother], hnull⟩
  | added _ hnull hrest ih =>
    obtain ⟨hnew, hdistinct⟩ := List.nodup_cons.mp hdistinct
    exact List.forall_mem_cons.mpr ⟨.inr ⟨mt hrest.names_subset hnew, hnull⟩, ih hdistinct⟩

end Fields

theorem InputType.Extends.isNonNull_eq {type type' : InputType} (h : type.Extends type') :
    type'.isNonNull = type.isNonNull := by
  cases h <;> rfl

theorem FieldsExtend.refl {R : InputType → InputType → Prop} {fields : List Field}
    (h : ∀ field ∈ fields, R field.type field.type) : FieldsExtend R fields fields := by
  induction fields with
  | nil => exact .nil
  | cons field rest ih =>
    obtain ⟨hfield, hrest⟩ := List.forall_mem_cons.mp h
    exact .kept rfl rfl hfield (ih hrest)

/-- A type that documents make is wider than itself. -/
theorem InputType.Declared.extends_refl {type : InputType} (h : type.Declared) :
    type.Extends type := by
  induction h with
  | reference => exact .reference
  | list _ ih => exact .list ih
  | nonNull _ ih => exact .nonNull ih
  | builtin => exact .builtin
  | enum => exact .enum fun _ hmem => hmem
  | object hdistinct _ ih => exact .object hdistinct (.refl ih)
  | union hvalue hliteral hlookup _ _ ih =>
    refine .union rfl hvalue hvalue hliteral hliteral hlookup hlookup (fun _ hkey => hkey) ?_
    intro key type type' hentry hentry'
    obtain rfl := Option.some.inj (hentry.symm.trans hentry')
    exact ih (key, type) (mem_of_lookup hentry)

/-! ## Candidates -/

/-- The candidate of a key is a wider one. -/
theorem finds_widen {union union' : UnionType} {key : String} {type : NamedType}
    (h : (InputType.named (.union union)).Extends (.named (.union union')))
    (hfinds : union.lookup.Finds key type) :
    ∃ type', union'.lookup.Finds key type' ∧ (InputType.named type).Extends (.named type') := by
  cases h with
  | union _ _ _ _ _ hlookup hlookup' hkeys hentries =>
    rw [hlookup] at hfinds
    cases hfinds with
    | table hentry =>
      obtain ⟨type', hentry'⟩ := Option.isSome_iff_exists.mp (hkeys key (by rw [hentry]; rfl))
      rw [hlookup']
      exact ⟨type', .table hentry', hentries key type type' hentry hentry'⟩

/-- The key of a value stays the same. -/
theorem readsKey_widen {union union' : UnionType} {key : String} {value : Json}
    (h : (InputType.named (.union union)).Extends (.named (.union union')))
    (hreads : union.ReadsKey value key) : union'.ReadsKey value key := by
  cases h with
  | union hkey hvalue hvalue' _ _ _ _ _ _ =>
    cases hreads with
    | function hfunction => simp [hvalue] at hfunction
    | typeKey _ hfield hmember htruthy =>
      exact .typeKey hvalue' (hkey.trans hfield) hmember htruthy
    | wrapper _ hnone htag htruthy hpayload hpresent =>
      exact .wrapper hvalue' (hkey.trans hnone) htag htruthy hpayload hpresent

theorem typeOfValue_widen {union union' : UnionType} {value : Json} {type : NamedType}
    (h : (InputType.named (.union union)).Extends (.named (.union union')))
    (htype : union.typeOfValue value = .ok type) :
    ∃ type', union'.typeOfValue value = .ok type' ∧
      (InputType.named type).Extends (.named type') := by
  obtain ⟨key, hreads, hfinds⟩ := typeOfValue_eq_ok_iff.mp htype
  obtain ⟨type', hfinds', htype'⟩ := finds_widen h hfinds
  exact ⟨type', typeOfValue_eq_ok_iff.mpr ⟨key, readsKey_widen h hreads, hfinds'⟩, htype'⟩

/-- Without a function for literals, a union takes the candidate under the key that it reads. -/
theorem typeOfNode_of_literalKey? {union : UnionType} {source : Source} {node : Literal.Node}
    {key : String} {type : NamedType} (hliteral : union.typeOfLiteral = none)
    (hkey : union.literalKey? node = some key) (hfinds : union.lookup.Finds key type) :
    union.typeOfNode source node = .ok type := by
  have hresolve := (resolve_eq_ok_iff union.name).mpr hfinds
  unfold UnionType.literalKey? at hkey
  unfold UnionType.typeOfNode UnionType.literalTarget
  cases hname : union.typeKey <;> simp_all

theorem typeOfNode_widen {union union' : UnionType} {source : Source} {node : Literal.Node}
    {type : NamedType} (h : (InputType.named (.union union)).Extends (.named (.union union')))
    (htype : union.typeOfNode source node = .ok type) :
    ∃ type', union'.typeOfNode source node = .ok type' ∧
      (InputType.named type).Extends (.named type') := by
  obtain ⟨hname, hliteral, hliteral'⟩ : union'.typeKey = union.typeKey ∧
      union.typeOfLiteral = none ∧ union'.typeOfLiteral = none := by
    cases h
    exact ⟨‹_›, ‹_›, ‹_›⟩
  obtain ⟨key, hkey, hfinds⟩ := key_of_typeOfNode hliteral htype
  have hkey' : union'.literalKey? node = some key := by
    rwa [UnionType.literalKey?, hname]
  obtain ⟨type', hfinds', htype'⟩ := finds_widen h hfinds
  exact ⟨type', typeOfNode_of_literalKey? hliteral' hkey' hfinds', htype'⟩

/-! ## Values -/

/-- **Values that conform to a type conform to a wider one.** -/
theorem InputType.Conforms.widen {registry registry' : Registry} {type type' : InputType}
    {value : Json} (h : type.Conforms registry value) (hregistry : registry.Extends registry')
    (htype : type.Extends type') : type'.Conforms registry' value := by
  induction h generalizing type' with
  | null hnull => exact .null (htype.isNonNull_eq.trans hnull)
  | nonNull hvalue _ ih =>
    cases htype with
    | nonNull hinner => exact .nonNull hvalue (ih hinner)
  | reference hget _ ih =>
    cases htype with
    | reference =>
      obtain ⟨type', hget', htype'⟩ := hregistry _ _ hget
      exact .reference hget' (ih htype')
  | items _ ih =>
    cases htype with
    | list hitem => exact .items fun value hmem => ih value hmem hitem
  | lone harray _ ih =>
    cases htype with
    | list hitem => exact .lone harray (ih hitem)
  | object hdeclared hgiven habsent ih =>
    cases htype with
    | object hdistinct hfields =>
      refine .object (fun member hmem => ?_) (fun field' hmem value hlookup => ?_)
        (fun field' hmem hlookup => ?_)
      · obtain ⟨field, hfield, hname⟩ := hdeclared member hmem
        obtain ⟨field', hfield', hkept⟩ := hfields.exists_kept field hfield
        exact ⟨field', hfield', hkept.name.trans hname⟩
      · rcases hfields.kept_or_added hdistinct field' hmem with ⟨field, hfield, hkept⟩ | ⟨hnew, -⟩
        · exact ih field hfield value (hkept.name ▸ hlookup) hkept.type
        · -- A member that is given is declared, so its name is not new.
          obtain ⟨field, hfield, hname⟩ := hdeclared (field'.name, value) (mem_of_lookup hlookup)
          exact absurd (List.mem_map.mpr ⟨field, hfield, hname⟩) hnew
      · rcases hfields.kept_or_added hdistinct field' hmem with
          ⟨field, hfield, hkept⟩ | ⟨-, hnull⟩
        · rw [hkept.default, hkept.type.isNonNull_eq]
          exact habsent field hfield (hkept.name ▸ hlookup)
        · exact .inr hnull
  | enum hname =>
    cases htype with
    | enum hvalues => exact .enum (hvalues _ hname)
  | builtin haccepts =>
    cases htype with
    | builtin => exact .builtin haccepts
  | union hkey hfind _ ih =>
    cases type' with
    | named type' =>
      cases type' with
      | union union' =>
        obtain ⟨type', hfind', htype'⟩ := finds_widen htype hfind
        exact .union (readsKey_widen htype hkey) hfind' (ih htype')
      | _ => cases htype
    | _ => cases htype

/-- A union takes the values that a narrower one takes. -/
theorem parseValue_widen {registry registry' : Registry} {union union' : UnionType}
    {value out : Json} (hregistry : registry.Extends registry')
    (hunion : (InputType.named (.union union)).Extends (.named (.union union')))
    (h : union.parseValue registry value = .ok out) :
    union'.parseValue registry' value = .ok out := by
  obtain ⟨⟨type, made, htype, hcoerce⟩, hout⟩ := parseValue_eq_ok_iff.mp h
  obtain ⟨type', htype', hextends⟩ := typeOfValue_widen hunion htype
  have hconforms := ((coerce_eq_ok_iff registry (.named type) value made).mp hcoerce).1
  have hcoerce' := (coerce_eq_ok_iff registry' (.named type') value _).mpr
    ⟨hconforms.widen hregistry hextends, rfl⟩
  exact parseValue_eq_ok_iff.mpr ⟨⟨type', _, htype', hcoerce'⟩, hout⟩

/-! ## Literals -/

section Literals

variable {registry registry' : Registry} {source : Source}

theorem convertItems_widen {item item' : InputType} {items : List Literal.Node} {outs : List Json}
    (hitem : ∀ part ∈ items, ∀ out, item.convert registry source part = some out →
      item'.convert registry' source part = some out)
    (h : convertItems registry source item items = some outs) :
    convertItems registry' source item' items = some outs := by
  induction items generalizing outs with
  | nil => rwa [convertItems_nil] at h ⊢
  | cons part rest ih =>
    obtain ⟨hpart, hrest⟩ := List.forall_mem_cons.mp hitem
    rw [convertItems_cons] at h ⊢
    obtain ⟨value, hvalue, h⟩ := Option.bind_eq_some_iff.mp h
    obtain ⟨values, hvalues, rfl⟩ := Option.map_eq_some_iff.mp h
    rw [hpart value hvalue, Option.bind_some, ih hrest hvalues, Option.map_some]

/-- Fields that are kept make the members they made, and fields that are new and not given make
none. -/
theorem convertFields_widen {R : InputType → InputType → Prop} {fields fields' : List Field}
    {given : List Literal.Field} {members : List (String × Json)}
    (hfields : FieldsExtend R fields fields') (hdistinct : (fields'.map Field.name).Nodup)
    (hgiven : ∀ found ∈ given, found.name.text ∈ fields'.map Field.name →
      found.name.text ∈ fields.map Field.name)
    (hnull : ∀ {type type'}, R type type' → type'.isNonNull = type.isNonNull)
    (hconvert : ∀ field ∈ fields, ∀ found,
      given.find? (fun other => other.name.text = field.name) = some found →
        ∀ {type' out}, R field.type type' →
          field.type.convert registry source found.value = some out →
            type'.convert registry' source found.value = some out)
    (h : convertFields registry source given fields = some members) :
    convertFields registry' source given fields' = some members := by
  induction hfields generalizing members with
  | nil => rwa [convertFields_nil] at h ⊢
  | @kept field field' rest rest' hname hdefault htype hrest ih =>
    obtain ⟨hnew, hdistinct⟩ := List.nodup_cons.mp hdistinct
    obtain ⟨hfirst, hothers⟩ := List.forall_mem_cons.mp hconvert
    rw [convertFields_cons] at h ⊢
    obtain ⟨made, hmade, h⟩ := Option.bind_eq_some_iff.mp h
    obtain ⟨more, hmore, rfl⟩ := Option.map_eq_some_iff.mp h
    have hmade' : convertField registry' source given field' = some made := by
      unfold convertField at hmade ⊢
      rw [hname]
      cases hfind : given.find? fun other => other.name.text = field.name with
      | some found =>
        simp only [hfind] at hmade ⊢
        obtain ⟨value, hvalue, rfl⟩ := Option.map_eq_some_iff.mp hmade
        rw [hfirst found hfind htype hvalue, Option.map_some]
      | none =>
        simp only [hfind, defaultMember?] at hmade ⊢
        rwa [hdefault, hname, hnull htype]
    have hgiven' : ∀ found ∈ given, found.name.text ∈ rest'.map Field.name →
        found.name.text ∈ rest.map Field.name := by
      intro found hmem hlater
      have hne : found.name.text ≠ field.name := by
        rintro hsame
        rw [hname, ← hsame] at hnew
        exact hnew hlater
      simpa [hne] using hgiven found hmem (List.mem_cons_of_mem _ hlater)
    rw [hmade', Option.bind_some, ih hdistinct hgiven' hothers hmore, Option.map_some]
  | @added field fields rest' hdefault hnonNull hrest ih =>
    obtain ⟨hnew, hdistinct⟩ := List.nodup_cons.mp hdistinct
    have hnot : ∀ found ∈ given, found.name.text ≠ field.name := by
      intro found hmem hsame
      have hold := hgiven found hmem (hsame ▸ List.mem_cons_self)
      exact hnew (hsame ▸ hrest.names_subset hold)
    have hnone : convertField registry' source given field = some [] := by
      have hfind : given.find? (fun other => other.name.text = field.name) = none := by
        simpa using hnot
      simp [convertField, hfind, defaultMember?, hdefault, hnonNull]
    have hgiven' : ∀ found ∈ given, found.name.text ∈ rest'.map Field.name →
        found.name.text ∈ fields.map Field.name :=
      fun found hmem hlater => hgiven found hmem (List.mem_cons_of_mem _ hlater)
    rw [convertFields_cons, hnone, Option.bind_some, ih hdistinct hgiven' hconvert h]
    rfl

/-- **A literal becomes the same under a wider type.** -/
theorem convert_widen {type type' : InputType} {node : Literal.Node} {out : Json}
    (hregistry : registry.Extends registry') (htype : type.Extends type')
    (h : type.convert registry source node = some out) :
    type'.convert registry' source node = some out := by
  induction type, node using nodeInduction registry source generalizing type' out with
  | null type node hnonNull hnull =>
    rw [convert_null hnonNull hnull] at h
    rwa [convert_null (htype.isNonNull_eq.trans hnonNull) hnull]
  | nonNull inner node ih =>
    cases htype with
    | nonNull hinner =>
      rw [convert_nonNull] at h ⊢
      obtain ⟨hconvert, hvalue⟩ := Option.filter_eq_some_iff.mp h
      exact Option.filter_eq_some_iff.mpr ⟨ih hinner hconvert, hvalue⟩
  | reference name node hnull ih =>
    cases htype with
    | reference =>
      rw [convert_reference hnull] at h ⊢
      obtain ⟨type, hget, hconvert⟩ := Option.bind_eq_some_iff.mp h
      obtain ⟨type', hget', hextends⟩ := hregistry name type hget
      rw [hget', Option.bind_some]
      exact ih type hget hextends hconvert
  | list item node items hvalue ih =>
    cases htype with
    | list hitem =>
      rw [convert_list hvalue] at h ⊢
      obtain ⟨outs, houts, rfl⟩ := Option.map_eq_some_iff.mp h
      rw [convertItems_widen (fun part hmem _ => ih part hmem hitem) houts, Option.map_some]
  | lone item node hnull hlist ih =>
    cases htype with
    | list hitem =>
      rw [convert_lone hnull hlist] at h ⊢
      obtain ⟨value, hvalue, rfl⟩ := Option.map_eq_some_iff.mp h
      rw [ih hitem hvalue, Option.map_some]
  | builtin scalar node hnull =>
    cases htype with
    | builtin => rwa [convert_builtin hnull] at h ⊢
  | enum enum node hnull =>
    cases htype with
    | enum hvalues =>
      rw [convert_enum hnull] at h ⊢
      unfold EnumType.convert at h ⊢
      split at h
      · rename_i name hvalue
        obtain ⟨hname, hout⟩ := Option.ite_none_right_eq_some.mp h
        rwa [if_pos (hvalues name hname)]
      · simp at h
  | object object node given hvalue ih =>
    cases htype with
    | @object _ object' hdistinct hfields =>
      rw [convert_object hvalue] at h ⊢
      obtain ⟨hall, h⟩ := Option.ite_none_right_eq_some.mp h
      obtain ⟨members, hmembers, rfl⟩ := Option.map_eq_some_iff.mp h
      have hdeclared : ∀ found ∈ given, found.name.text ∈ object.fields.map Field.name := by
        simpa [ObjectType.field?] using hall
      have hall' : (given.all fun found => (object'.field? found.name.text).isSome) = true := by
        have : ∀ found ∈ given, found.name.text ∈ object'.fields.map Field.name :=
          fun found hmem => hfields.names_subset (hdeclared found hmem)
        simpa [ObjectType.field?] using this
      have hmembers' := convertFields_widen hfields hdistinct
        (fun found hmem _ => hdeclared found hmem) InputType.Extends.isNonNull_eq
        (fun field hmem found hfind => ih field hmem found hfind) hmembers
      rw [if_pos hall', hmembers', Option.map_some]
  | other object node hnull hobject => simp [convert_not_object hnull hobject] at h
  | union union node hnull ih =>
    cases type' with
    | named type' =>
      cases type' with
      | union union' =>
        rw [convert_union hnull, toOption_eq_some] at h ⊢
        obtain ⟨type, hnode, hconvert⟩ := parseLiteral_eq_ok_iff.mp h
        obtain ⟨type', hnode', hextends⟩ := typeOfNode_widen htype hnode
        exact parseLiteral_eq_ok_iff.mpr ⟨type', hnode', ih type hnode hextends hconvert⟩
      | _ => cases htype
    | _ => cases htype

/-- A union makes of a literal what a narrower one makes of it. -/
theorem parseLiteral_widen {union union' : UnionType} {node : Literal.Node} {out : Json}
    (hregistry : registry.Extends registry')
    (hunion : (InputType.named (.union union)).Extends (.named (.union union')))
    (h : union.parseLiteral registry source node = .ok out) :
    union'.parseLiteral registry' source node = .ok out := by
  obtain ⟨type, hnode, hconvert⟩ := parseLiteral_eq_ok_iff.mp h
  obtain ⟨type', hnode', hextends⟩ := typeOfNode_widen hunion hnode
  exact parseLiteral_eq_ok_iff.mpr ⟨type', hnode', convert_widen hregistry hextends hconvert⟩

end Literals

end TaggedUnion
