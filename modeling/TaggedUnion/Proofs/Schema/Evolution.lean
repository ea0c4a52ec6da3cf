import TaggedUnion.Proofs.Coercion.Widening

/-!
# Documents that grow

A document may get new types, new values of enums, new candidates of unions and new fields that may
be left out. What a union of the old document takes, the union of that name takes in the new one.

* `Document.Evolves`: documents that differ in such additions.
* `Document.Built`: what a schema holds of a union that is declared.
* `registry_extends_of_evolves`: the registry of the new document is wider.
* `parse_of_evolves`: values and literals that a union takes stay taken, with the same result.
-/

namespace TaggedUnion

/-! ## Candidates under their keys -/

/-- The names of the candidates with their keys, in order. -/
def CandidateNames.pairs : CandidateNames → List (String × String)
  | byName names => names.map fun name => (name, name)
  | keyed pairs => pairs

theorem CandidateNames.map_fst_pairs {names : CandidateNames} :
    names.pairs.map Prod.fst = names.keys := by
  cases names with
  | byName names => simp [pairs, keys, Function.comp_def]
  | keyed pairs => rfl

theorem CandidateNames.map_snd_pairs {names : CandidateNames} :
    names.pairs.map Prod.snd = names.names := by
  cases names with
  | byName names => simp [pairs, CandidateNames.names, Function.comp_def]
  | keyed pairs => rfl

/-- The table of the union whose candidates are the given types. -/
def UnionDef.entries (declaration : UnionDef) (types : List NamedType) :
    List (String × NamedType) :=
  (declaration.inputTypes.keys.zip types).map (tableEntry declaration.typeKey.isNone)

namespace Document

/-- A table holds, under each key, what the name of the candidate stands for. -/
theorem lookup_tableEntry_eq_some_iff {schema : Schema} {wrap : Bool}
    {pairs : List (String × String)} {types : List NamedType} (hkeys : (pairs.map Prod.fst).Nodup)
    (htypes : Resolves schema (pairs.map Prod.snd) types) {key : String} {type : NamedType} :
    (((pairs.map Prod.fst).zip types).map (tableEntry wrap)).lookup key = some type ↔
      ∃ name payload, (key, name) ∈ pairs ∧ schema.registry.get? name = some payload ∧
        type = (tableEntry wrap (key, payload)).2 := by
  induction pairs generalizing types with
  | nil => simp
  | cons pair rest ih =>
    obtain ⟨first, name⟩ := pair
    obtain ⟨hnew, hkeys⟩ := List.nodup_cons.mp hkeys
    obtain ⟨payload, others, hget, hothers, rfl⟩ := List.forall₂_cons_left_iff.mp htypes
    have hhead : (tableEntry wrap (first, payload)).1 = first := rfl
    rw [List.map_cons, List.zip_cons_cons, List.map_cons, List.lookup_cons, hhead]
    by_cases hkey : key = first
    · subst hkey
      simp only [beq_self_eq_true, Option.some.injEq]
      constructor
      · rintro rfl
        exact ⟨name, payload, List.mem_cons_self, hget, rfl⟩
      · rintro ⟨other, payload', hmem, hget', rfl⟩
        rcases List.mem_cons.mp hmem with hsame | hrest
        · cases hsame
          cases hget.symm.trans hget'
          rfl
        · exact absurd (List.mem_map_of_mem hrest) hnew
    · have hne : (key == first) = false := by simpa using hkey
      rw [hne]
      simp only [ih hkeys hothers, List.mem_cons, Prod.mk.injEq, hkey, false_and, false_or]

theorem lookup_entries_eq_some_iff {schema : Schema} {declaration : UnionDef}
    {types : List NamedType} (hkeys : declaration.inputTypes.keys.Nodup)
    (htypes : Resolves schema declaration.inputTypes.names types) {key : String}
    {type : NamedType} : (declaration.entries types).lookup key = some type ↔
      ∃ name payload, (key, name) ∈ declaration.inputTypes.pairs ∧
        schema.registry.get? name = some payload ∧
          type = (tableEntry declaration.typeKey.isNone (key, payload)).2 := by
  rw [← CandidateNames.map_fst_pairs] at hkeys
  rw [← CandidateNames.map_snd_pairs] at htypes
  rw [UnionDef.entries, ← CandidateNames.map_fst_pairs, lookup_tableEntry_eq_some_iff hkeys htypes]

/-! ## Built unions -/

/-- The union of a declaration is in the schema, and its candidates are what their names stand
for. -/
structure Built (schema : Schema) (declaration : UnionDef) (types : List NamedType) : Prop where
  keys : declaration.inputTypes.keys.Nodup
  resolves : Resolves schema declaration.inputTypes.names types
  registered : schema.registry.get? declaration.name = some (.union (declaration.unionOf types))
  known : schema.union? declaration.name = some (declaration.unionOf types)

theorem union?_withUnion {schema : Schema} {union : UnionType} {name : String} :
    (withUnion schema union).union? name =
      if union.name = name then some union else schema.union? name := by
  unfold Schema.union? withUnion Schema.setUnion
  simp only []
  generalize schema.unions = unions
  induction unions with
  | nil => simp [Schema.setUnion.insert, List.find?_singleton]
  | cons other rest ih =>
    unfold Schema.setUnion.insert
    split
    · rename_i hsame
      by_cases hname : union.name = name
      · simp [hname]
      · simp [hname, hsame]
    · rename_i hother
      by_cases hname : other.name = name
      · have hne : union.name ≠ name := fun h => hother (hname.trans h.symm)
        simp [hname, hne]
      · simpa [hname] using ih

/-- A declared union that is registered is built. -/
theorem Grows.built {declared : List UnionDef} {schema schema' : Schema}
    (h : Grows declared schema schema') (hdistinct : (declared.map UnionDef.name).Nodup)
    (hdisjoint : ∀ declaration ∈ declared, declaration.name ∉ schema.registry.names)
    {declaration : UnionDef} (hmem : declaration ∈ declared) :
    declaration.name ∈ schema'.registry.names → ∃ types, Built schema' declaration types := by
  induction h with
  | refl => exact fun hname => absurd hname (hdisjoint declaration hmem)
  | @add grown last types _ hlast htypes hbuild hnew ih =>
    rw [names_withUnion, List.mem_append, List.mem_singleton]
    rintro (hname | hname)
    · obtain ⟨types', hkeys, hresolves, hregistered, hknown⟩ := ih hname
      have hne : last.name ≠ declaration.name := fun hsame => hnew (hsame ▸ hname)
      refine ⟨types', hkeys, hresolves.imp fun _ _ => get?_withUnion,
        get?_withUnion hregistered, ?_⟩
      exact union?_withUnion.trans ((if_neg hne).trans hknown)
    · obtain rfl : declaration = last := List.inj_on_of_nodup_map hdistinct hmem hlast hname
      refine ⟨types, hbuild.keys, htypes.imp fun _ _ => get?_withUnion,
        get?_withUnion_self (declaration.unionOf types) hnew, ?_⟩
      exact union?_withUnion.trans (if_pos rfl)

section Build

variable {document : Document} {schema : Schema}

/-- How a schema comes about: the objects and enums of the document are registered behind the
built-in scalars, and all its unions are added. -/
theorem grows_of_build (hbuild : document.build = .ok schema) : ∃ types unions,
    Collects document.types types unions ∧ (afterBuiltins types).names.Nodup ∧
      Grows unions ⟨afterBuiltins types, []⟩ schema ∧
        ∀ declaration ∈ unions, ∃ types, Built schema declaration types := by
  obtain ⟨_, unions, built, hcollect, hdisjoint, hensure, -⟩ := build_eq_ok_iff.mp hbuild
  obtain ⟨types, hcollects, rfl, -, hnames, hdistinct⟩ := collect_builtins_iff.mp hcollect
  obtain ⟨hgrows, hresolves⟩ := ensureAll_grows (fun h => ensure_grows h) hensure
  refine ⟨types, unions, hcollects, hnames, hgrows, fun declaration hmem => ?_⟩
  exact hgrows.built hdistinct hdisjoint hmem (hresolves.mem_names (List.mem_map_of_mem hmem))

theorem get?_builtin_of_build (hbuild : document.build = .ok schema) (scalar : Builtin) :
    schema.registry.get? scalar.name = some (.builtin scalar) := by
  obtain ⟨types, unions, -, -, hgrows, -⟩ := grows_of_build hbuild
  have hbuiltin : Registry.builtins.get? scalar.name = some (.builtin scalar) := by
    cases scalar <;> rfl
  exact hgrows.get? (Registry.get?_append hbuiltin)

/-- The types that are made stand for their names. -/
theorem get?_of_makesType (hbuild : document.build = .ok schema) {declaration : TypeDef}
    {type : NamedType} (hmem : declaration ∈ document.types) (hmakes : MakesType declaration type) :
    schema.registry.get? declaration.name = some type := by
  obtain ⟨types, unions, hcollects, hnames, hgrows, -⟩ := grows_of_build hbuild
  have htype : type ∈ (afterBuiltins types).types :=
    List.mem_append_right _ (hcollects.mem_types.mpr ⟨declaration, hmem, hmakes⟩)
  rw [hmakes.name_eq]
  exact hgrows.get? (Registry.get?_name hnames htype)

theorem exists_objectType_of_build (hbuild : document.build = .ok schema)
    {declaration : ObjectDef} (hmem : .object declaration ∈ document.types) :
    ∃ object, objectType declaration = .ok object := by
  obtain ⟨types, unions, hcollects, -⟩ := grows_of_build hbuild
  exact Collects.exists_iff.mp ⟨types, unions, hcollects⟩ declaration hmem

theorem built_of_build (hbuild : document.build = .ok schema) {declaration : UnionDef}
    (hmem : .union declaration ∈ document.types) : ∃ types, Built schema declaration types := by
  obtain ⟨types, unions, hcollects, -, -, hbuilt⟩ := grows_of_build hbuild
  exact hbuilt declaration (hcollects.mem_unions.mpr hmem)

end Build

/-! ## Evolution -/

/-- Declared fields with more fields between them, which have no default and a type that admits
null. -/
inductive FieldsEvolve : List (String × FieldDef) → List (String × FieldDef) → Prop where
  | nil : FieldsEvolve [] []
  | kept {declared : String × FieldDef} {rest rest' : List (String × FieldDef)}
    (hrest : FieldsEvolve rest rest') : FieldsEvolve (declared :: rest) (declared :: rest')
  | added {declared : String × FieldDef} {type : InputType}
    {fields rest : List (String × FieldDef)}
    (htype : InputType.parse declared.2.typeText = .ok type) (hnull : type.isNonNull = false)
    (hdefault : declared.2.default? = none) (hrest : FieldsEvolve fields rest) :
    FieldsEvolve fields (declared :: rest)

/-- A declaration of the same name and kind, with more fields, values or candidates. -/
inductive DeclarationEvolves : TypeDef → TypeDef → Prop where
  | object {declaration declaration' : ObjectDef} (hname : declaration'.name = declaration.name)
    (hfields : FieldsEvolve declaration.fields declaration'.fields) :
    DeclarationEvolves (.object declaration) (.object declaration')
  | enum {declaration declaration' : EnumDef} (hname : declaration'.name = declaration.name)
    (hvalues : ∀ value ∈ declaration.values, value ∈ declaration'.values) :
    DeclarationEvolves (.enum declaration) (.enum declaration')
  | union {declaration declaration' : UnionDef} (hname : declaration'.name = declaration.name)
    (hkey : declaration'.typeKey = declaration.typeKey)
    (hcandidates : ∀ pair ∈ declaration.inputTypes.pairs, pair ∈ declaration'.inputTypes.pairs) :
    DeclarationEvolves (.union declaration) (.union declaration')

/-- A document in which every declaration is kept, with more in it, and others may be new. -/
def Evolves (document document' : Document) : Prop :=
  ∀ declaration ∈ document.types,
    ∃ declaration' ∈ document'.types, DeclarationEvolves declaration declaration'

theorem FieldsEvolve.extends {declared declared' : List (String × FieldDef)}
    (h : FieldsEvolve declared declared') {fields fields' : List Field}
    (hmade : List.Forall₂ MakesField declared fields)
    (hmade' : List.Forall₂ MakesField declared' fields') :
    FieldsExtend InputType.Extends fields fields' := by
  induction h generalizing fields fields' with
  | nil =>
    cases hmade
    cases hmade'
    exact .nil
  | kept _ ih =>
    obtain ⟨field, rest, ⟨htype, hname, -, hdefault⟩, hrest, rfl⟩ :=
      List.forall₂_cons_left_iff.mp hmade
    obtain ⟨field', rest', ⟨htype', hname', -, hdefault'⟩, hrest', rfl⟩ :=
      List.forall₂_cons_left_iff.mp hmade'
    have hsame : field'.type = field.type := Except.ok.inj (htype'.symm.trans htype)
    exact .kept (hname'.trans hname.symm) (hdefault'.trans hdefault.symm)
      (hsame ▸ (parse_declared htype).extends_refl) (ih hrest hrest')
  | added htype hnull hdefault _ ih =>
    obtain ⟨field', rest', ⟨htype', -, -, hdefault'⟩, hrest', rfl⟩ :=
      List.forall₂_cons_left_iff.mp hmade'
    have hsame : field'.type = _ := Except.ok.inj (htype'.symm.trans htype)
    exact .added (hdefault'.trans hdefault) (hsame ▸ hnull) (ih hmade hrest')

theorem mem_enumType_values {declaration : EnumDef} {value : String} :
    value ∈ (enumType declaration).values ↔ value ∈ declaration.values := by
  have hfold : ∀ (values known : List String), value ∈ values.foldl
      (fun known value => if value ∈ known then known else known ++ [value]) known ↔
        value ∈ known ∨ value ∈ values := by
    intro values
    induction values with
    | nil => simp
    | cons first rest ih =>
      intro known
      rw [List.foldl_cons, ih]
      split <;> grind
  simp [enumType, EnumType.ofValues, hfold]

theorem tableEntry_extends {wrap : Bool} {key : String} {payload payload' : NamedType}
    (h : (InputType.named payload).Extends (.named payload')) :
    (InputType.named (tableEntry wrap (key, payload)).2).Extends
      (.named (tableEntry wrap (key, payload')).2) := by
  cases wrap with
  | false => exact h
  | true =>
    have hdistinct : [typeField, valueField].Nodup := by decide
    exact .object hdistinct (.kept rfl rfl .builtin (.kept rfl rfl h .nil))

section Evolve

variable {document document' : Document} {schema schema' : Schema}

/-- The type that an object or enum makes gets wider. -/
theorem makesType_extends (hbuild' : document'.build = .ok schema')
    {declaration declaration' : TypeDef} {type : NamedType}
    (hmem' : declaration' ∈ document'.types)
    (hevolves : DeclarationEvolves declaration declaration') (hmakes : MakesType declaration type) :
    ∃ type', schema'.registry.get? type.name = some type' ∧
      (InputType.named type).Extends (.named type') := by
  cases hevolves with
  | object hname hfields =>
    cases hmakes with
    | object hobject =>
      obtain ⟨object', hobject'⟩ := exists_objectType_of_build hbuild' hmem'
      obtain ⟨-, hsame, -, hmade⟩ := objectType_eq_ok_iff.mp hobject
      obtain ⟨hdistinct', -, -, hmade'⟩ := objectType_eq_ok_iff.mp hobject'
      have hget := get?_of_makesType hbuild' hmem' (.object hobject')
      refine ⟨.object object', ?_, .object ?_ (hfields.extends hmade hmade')⟩
      · rw [← hget]
        exact congrArg schema'.registry.get? (hsame.trans hname.symm)
      · rwa [← (names_of_makesFields hmade').1]
  | @enum _ declaration' hname hvalues =>
    cases hmakes
    have hget := get?_of_makesType hbuild' hmem' .enum
    refine ⟨.enum (enumType declaration'), ?_, .enum fun value hvalue => ?_⟩
    · rw [← hget]
      exact congrArg schema'.registry.get? hname.symm
    · exact mem_enumType_values.mpr (hvalues value (mem_enumType_values.mp hvalue))
  | union => cases hmakes

/-- A union whose candidates get wider gets wider. -/
theorem unionOf_extends {grown : Schema} (hregistry : grown.registry.Extends schema'.registry)
    {declaration declaration' : UnionDef} {types types' : List NamedType}
    (hkeys : declaration.inputTypes.keys.Nodup)
    (htypes : Resolves grown declaration.inputTypes.names types)
    (hbuilt' : Built schema' declaration' types')
    (hkey : declaration'.typeKey = declaration.typeKey)
    (hcandidates : ∀ pair ∈ declaration.inputTypes.pairs, pair ∈ declaration'.inputTypes.pairs) :
    (InputType.named (.union (declaration.unionOf types))).Extends
      (.named (.union (declaration'.unionOf types'))) := by
  have hwiden : ∀ {key type}, (declaration.entries types).lookup key = some type →
      ∃ type', (declaration'.entries types').lookup key = some type' ∧
        (InputType.named type).Extends (.named type') := by
    intro key type hentry
    obtain ⟨name, payload, hpair, hget, rfl⟩ :=
      (lookup_entries_eq_some_iff hkeys htypes).mp hentry
    obtain ⟨payload', hget', hpayload⟩ := hregistry name payload hget
    have hentry' := (lookup_entries_eq_some_iff hbuilt'.keys hbuilt'.resolves).mpr
      ⟨name, payload', hcandidates _ hpair, hget', rfl⟩
    rw [hkey] at hentry'
    exact ⟨_, hentry', tableEntry_extends hpayload⟩
  refine .union hkey rfl rfl rfl rfl rfl rfl (fun key hsome => ?_)
    fun key type type' hentry hentry' => ?_
  · obtain ⟨type, hentry⟩ := Option.isSome_iff_exists.mp hsome
    obtain ⟨type', hentry', -⟩ := hwiden hentry
    exact Option.isSome_iff_exists.mpr ⟨type', hentry'⟩
  · obtain ⟨other, hother, hextends⟩ := hwiden hentry
    obtain rfl := Option.some.inj (hentry'.symm.trans hother)
    exact hextends

/-- **The registry of a document that grows gets wider.** -/
theorem registry_extends_of_evolves (hbuild : document.build = .ok schema)
    (hbuild' : document'.build = .ok schema') (hevolves : document.Evolves document') :
    schema.registry.Extends schema'.registry := by
  obtain ⟨types, unions, hcollects, hnames, hgrows, -⟩ := grows_of_build hbuild
  clear hbuild
  -- Unions are added when their candidates are registered, so these have become wider before.
  induction hgrows with
  | refl =>
    intro name type hget
    obtain ⟨hmem, rfl⟩ := Registry.get?_some hget
    rcases List.mem_append.mp hmem with hbuiltin | htype
    · obtain ⟨scalar, -, rfl⟩ := List.mem_map.mp hbuiltin
      exact ⟨.builtin scalar, get?_builtin_of_build hbuild' scalar, .builtin⟩
    · obtain ⟨declaration, hdeclaration, hmakes⟩ := hcollects.mem_types.mp htype
      obtain ⟨declaration', hmem', hevolve⟩ := hevolves declaration hdeclaration
      exact makesType_extends hbuild' hmem' hevolve hmakes
  | @add grown declaration types _ hmem htypes hbuildable _ ih =>
    intro name type hget
    rcases get?_withUnion_or hget with hold | rfl
    · exact ih name type hold
    · obtain ⟨-, rfl⟩ := Registry.get?_some hget
      obtain ⟨declaration', hmem', hevolve⟩ := hevolves _ (hcollects.mem_unions.mp hmem)
      cases hevolve with
      | union hname hkey hcandidates =>
        obtain ⟨types', hbuilt'⟩ := built_of_build hbuild' hmem'
        refine ⟨_, hname ▸ hbuilt'.registered, ?_⟩
        exact unionOf_extends ih hbuildable.keys htypes hbuilt' hkey hcandidates

/-- **Schema evolution is backward compatible.** Let two documents make schemas, the second one with
every declaration of the first and possibly more: new types, new values of enums, candidates of
unions under new keys, and fields of objects that have no default and admit null. Then each union
that the first declares is in both schemas, and it takes in the second the values and the literals
that it takes in the first, with the same results. -/
theorem parse_of_evolves (hbuild : document.build = .ok schema)
    (hbuild' : document'.build = .ok schema') (hevolves : document.Evolves document')
    {declaration : UnionDef} (hmem : .union declaration ∈ document.types) :
    ∃ union union', schema.union? declaration.name = some union ∧
      schema'.union? declaration.name = some union' ∧
      (∀ value out, union.parseValue schema.registry value = .ok out →
        union'.parseValue schema'.registry value = .ok out) ∧
      ∀ source node out, union.parseLiteral schema.registry source node = .ok out →
        union'.parseLiteral schema'.registry source node = .ok out := by
  have hregistry := registry_extends_of_evolves hbuild hbuild' hevolves
  obtain ⟨types, hbuilt⟩ := built_of_build hbuild hmem
  obtain ⟨declaration', hmem', hevolve⟩ := hevolves _ hmem
  cases hevolve with
  | union hname hkey hcandidates =>
    obtain ⟨types', hbuilt'⟩ := built_of_build hbuild' hmem'
    have hunion :=
      unionOf_extends hregistry hbuilt.keys hbuilt.resolves hbuilt' hkey hcandidates
    exact ⟨_, _, hbuilt.known, hname ▸ hbuilt'.known,
      fun _ _ => parseValue_widen hregistry hunion,
      fun _ _ _ => parseLiteral_widen hregistry hunion⟩

end Evolve

/-! ## Cats and then other pets -/

/-- Cats, which have a color. -/
def catDocument : Document :=
  ⟨[.enum ⟨"Color", none, ["RED"]⟩,
    .object ⟨"Cat", none, [("color", ⟨"Color", none, none⟩)]⟩,
    .union ⟨"Pet", none, none, .byName ["Cat"]⟩]⟩

/-- The same with dogs, with another color and with the age of cats. -/
def petDocument : Document :=
  ⟨[.enum ⟨"Color", none, ["RED", "BLACK"]⟩,
    .object ⟨"Dog", none, []⟩,
    .object ⟨"Cat", none, [("age", ⟨"Int", none, none⟩), ("color", ⟨"Color", none, none⟩)]⟩,
    .union ⟨"Pet", none, none, .byName ["Dog", "Cat"]⟩]⟩

/-- The schema of cats. -/
def catSchema : Schema :=
  let color : EnumType := ⟨"Color", none, ["RED"]⟩
  let cat : ObjectType := ⟨"Cat", none, [⟨"color", .reference "Color", none, none⟩]⟩
  withUnion ⟨afterBuiltins [.enum color, .object cat], []⟩
    (UnionDef.unionOf ⟨"Pet", none, none, .byName ["Cat"]⟩ [.object cat])

/-- The schema of all pets. -/
def petSchema : Schema :=
  let color : EnumType := ⟨"Color", none, ["RED", "BLACK"]⟩
  let dog : ObjectType := ⟨"Dog", none, []⟩
  let cat : ObjectType := ⟨"Cat", none, [⟨"age", .reference "Int", none, none⟩,
    ⟨"color", .reference "Color", none, none⟩]⟩
  withUnion ⟨afterBuiltins [.enum color, .object dog, .object cat], []⟩
    (UnionDef.unionOf ⟨"Pet", none, none, .byName ["Dog", "Cat"]⟩ [.object dog, .object cat])

theorem build_catDocument : catDocument.build = .ok catSchema := by
  cbv

theorem build_petDocument : petDocument.build = .ok petSchema := by
  cbv

theorem catDocument_evolves : catDocument.Evolves petDocument := by
  have hage : InputType.parse "Int" = .ok (.reference "Int") := by
    cbv
  intro declaration hmem
  simp only [catDocument, List.mem_cons, List.not_mem_nil, or_false] at hmem
  rcases hmem with rfl | rfl | rfl
  · exact ⟨_, .head _, .enum rfl (by decide)⟩
  · exact ⟨_, .tail _ (.tail _ (.head _)), .object rfl (.added hage rfl rfl (.kept .nil))⟩
  · exact ⟨_, .tail _ (.tail _ (.tail _ (.head _))), .union rfl rfl (by decide)⟩

/-- A red cat, wrapped. -/
def redCat : Json :=
  .object [("_type_", .string "Cat"), ("_value_", .object [("color", .string "RED")])]

theorem parse_of_evolves_cat : ∃ union', petSchema.union? "Pet" = some union' ∧
    union'.parseValue petSchema.registry redCat = .ok redCat := by
  have hmem : .union ⟨"Pet", none, none, .byName ["Cat"]⟩ ∈ catDocument.types :=
    .tail _ (.tail _ (.head _))
  obtain ⟨union, union', hunion, hunion', hvalue, -⟩ :=
    parse_of_evolves build_catDocument build_petDocument catDocument_evolves hmem
  refine ⟨union', hunion', hvalue _ _ ?_⟩
  cases hunion
  cbv

end Document

end TaggedUnion
