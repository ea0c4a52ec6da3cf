import TaggedUnion.Proofs.InputType.Reference
import TaggedUnion.Proofs.Schema.Description

/-!
# Descriptions build the schema that they describe

A schema is built again from its description. What the description leaves out of the declarations
has no part in building, and unions stand in it behind the unions that they list, so the walk over
candidates leaves them in the order in which it finds them.

* `TypeDef.Repeats`, `wellFormed_of_repeats`: declarations that are repeated stay well-formed.
* `PostOrder.self`: nodes in order are left in this order.
* `Schema.redeclared`: the document that a description is.
* `describe_redeclared`: its schema has the same description.
-/

namespace TaggedUnion

/-! ## Repeated declarations -/

/-- A field has the name of another one and a text that is read as the same type. -/
def FieldDef.Repeats (field repeated : String × FieldDef) : Prop :=
  repeated.1 = field.1 ∧ ∃ type, InputType.parse field.2.typeText = .ok type ∧
    InputType.parse repeated.2.typeText = .ok type

/-- A declaration repeats another one as far as its name and what it refers to are concerned. -/
inductive TypeDef.Repeats : TypeDef → TypeDef → Prop where
  | object {declaration repeated : ObjectDef} (hname : repeated.name = declaration.name)
    (hfields : List.Forall₂ FieldDef.Repeats declaration.fields repeated.fields) :
    Repeats (.object declaration) (.object repeated)
  | enum {declaration repeated : EnumDef} (hname : repeated.name = declaration.name) :
    Repeats (.enum declaration) (.enum repeated)
  | union {declaration repeated : UnionDef} (hname : repeated.name = declaration.name)
    (hlisted : repeated.inputTypes = declaration.inputTypes) :
    Repeats (.union declaration) (.union repeated)

theorem TypeDef.Repeats.name_eq {declaration repeated : TypeDef}
    (h : declaration.Repeats repeated) : repeated.name = declaration.name := by
  cases h <;> assumption

theorem FieldDef.map_fst_of_repeats {fields repeated : List (String × FieldDef)}
    (h : List.Forall₂ FieldDef.Repeats fields repeated) :
    repeated.map Prod.fst = fields.map Prod.fst := by
  induction h with
  | nil => rfl
  | cons hfield _ ih => rw [List.map_cons, List.map_cons, hfield.1, ih]

theorem FieldDef.exists_of_repeats {fields repeated : List (String × FieldDef)}
    (h : List.Forall₂ FieldDef.Repeats fields repeated) :
    ∀ field' ∈ repeated, ∃ field ∈ fields, FieldDef.Repeats field field' := by
  induction h with
  | nil => nofun
  | cons hfield _ ih =>
    refine List.forall_mem_cons.mpr ⟨⟨_, List.mem_cons_self, hfield⟩, fun field' hmem => ?_⟩
    obtain ⟨field, hfield, hrepeats⟩ := ih field' hmem
    exact ⟨field, List.mem_cons_of_mem _ hfield, hrepeats⟩

namespace Document

/-- **What is repeated is well-formed**, if no name is repeated twice and none is left out. -/
theorem wellFormed_of_repeats {document document' : Document} (h : document.WellFormed)
    (hrepeats : ∀ repeated ∈ document'.types, ∃ declaration ∈ document.types,
      declaration.Repeats repeated)
    (hdistinct : (document'.types.map TypeDef.name).Nodup)
    (hnames : ∀ declaration ∈ document.types, ∃ repeated ∈ document'.types,
      repeated.name = declaration.name) : document'.WellFormed := by
  have hknows : ∀ {name}, document.Knows name → document'.Knows name := by
    rintro name (⟨declaration, hmem, rfl⟩ | hbuiltin)
    · exact .inl (hnames declaration hmem)
    · exact .inr hbuiltin
  have hobject : ∀ {repeated}, .object repeated ∈ document'.types →
      ∃ declaration, .object declaration ∈ document.types ∧
        List.Forall₂ FieldDef.Repeats declaration.fields repeated.fields := by
    intro repeated hmem
    obtain ⟨_, hdeclared, hrepeated⟩ := hrepeats _ hmem
    cases hrepeated with
    | object _ hfields => exact ⟨_, hdeclared, hfields⟩
  have hunion : ∀ {repeated}, .union repeated ∈ document'.types →
      ∃ declaration, .union declaration ∈ document.types ∧ declaration.name = repeated.name ∧
        repeated.inputTypes = declaration.inputTypes := by
    intro repeated hmem
    obtain ⟨_, hdeclared, hrepeated⟩ := hrepeats _ hmem
    cases hrepeated with
    | union hname hlisted => exact ⟨_, hdeclared, hname.symm, hlisted⟩
  refine ⟨fun repeated hmem => ?_, hdistinct, fun repeated hmem => ?_, fun repeated hmem => ?_,
    fun repeated hmem field hfield => ?_, fun repeated hmem name hlists => ?_,
    fun repeated hmem => ?_, fun name hcycle => ?_⟩
  · obtain ⟨declaration, hdeclared, hrepeated⟩ := hrepeats repeated hmem
    exact hrepeated.name_eq ▸ h.name declaration hdeclared
  · obtain ⟨declaration, hdeclared, hrepeated⟩ := hrepeats repeated hmem
    exact hrepeated.name_eq ▸ h.notBuiltin declaration hdeclared
  · obtain ⟨declaration, hdeclared, hfields⟩ := hobject hmem
    exact FieldDef.map_fst_of_repeats hfields ▸ h.fields declaration hdeclared
  · obtain ⟨declaration, hdeclared, hfields⟩ := hobject hmem
    obtain ⟨first, hfirst, -, type, htype, htype'⟩ :=
      FieldDef.exists_of_repeats hfields field hfield
    obtain ⟨type', hsame, hknown⟩ := h.fieldType declaration hdeclared first hfirst
    cases htype.symm.trans hsame
    exact ⟨type, htype', hknows hknown⟩
  · obtain ⟨declaration, hdeclared, -, hlisted⟩ := hunion hmem
    obtain ⟨hknown, hkind⟩ := h.candidate declaration hdeclared name (hlisted ▸ hlists)
    refine ⟨hknows hknown, fun other hother => ?_⟩
    obtain ⟨_, hdeclared', hrepeated⟩ := hrepeats _ hother
    cases hrepeated with
    | enum hname => exact hname ▸ hkind _ hdeclared'
  · obtain ⟨declaration, hdeclared, -, hlisted⟩ := hunion hmem
    exact hlisted ▸ h.keys declaration hdeclared
  · refine h.acyclic name (Relation.TransGen.mono ?_ _ _ hcycle)
    rintro _ listed ⟨repeated, hmem, rfl, hlists, other, hother, rfl⟩
    obtain ⟨declaration, hdeclared, hname, hlisted⟩ := hunion hmem
    obtain ⟨declaration', hdeclared', hname', -⟩ := hunion hother
    exact ⟨declaration, hdeclared, hname, hlisted ▸ hlists, declaration', hdeclared', hname'⟩

end Document

/-! ## Nodes in order -/

section Walks

variable {α : Type} {next : α → List α} {done nodes : List α}

/-- Nodes that have been left before are passed over. -/
theorem PostOrder.all_passed (h : ∀ node ∈ nodes, node ∈ done) :
    PostOrder next done nodes done := by
  induction nodes with
  | nil => exact .nil
  | cons node nodes ih =>
    obtain ⟨hnode, hnodes⟩ := List.forall_mem_cons.mp h
    exact .pass hnode (ih hnodes)

/-- **Nodes in order are left in this order.** Each one is visited when all that it leads to have
been left before. -/
theorem PostOrder.self (h : Ordered next (done ++ nodes)) (hdistinct : (done ++ nodes).Nodup) :
    PostOrder next done nodes (done ++ nodes) := by
  induction nodes generalizing done with
  | nil =>
    rw [List.append_nil]
    exact .nil
  | cons node nodes ih =>
    have hnew : node ∉ done := fun hmem =>
      (List.nodup_append.mp hdistinct).2.2 node hmem node List.mem_cons_self rfl
    have hbelow : PostOrder next done (next node) done := .all_passed (h done node nodes rfl)
    have hsplit : done ++ node :: nodes = (done ++ [node]) ++ nodes := by simp
    rw [hsplit] at h hdistinct ⊢
    exact .visit hnew hbelow (ih h hdistinct)

end Walks

/-! ## Redeclared types -/

/-- The document that a description of the schema is. -/
def Schema.redeclared (schema : Schema) : Document :=
  ⟨schema.registry.types.filterMap NamedType.redeclared?⟩

namespace Document

/-- Every union lists its candidates by name. -/
def ListsByName (document : Document) : Prop :=
  ∀ declaration, .union declaration ∈ document.types →
    ∃ names, declaration.inputTypes = .byName names

theorem redeclared?_union_eq_some_iff {union : UnionType} {repeated : TypeDef} :
    (NamedType.union union).redeclared? = some repeated ↔
      ∃ keys, union.lookup.keys? = some keys ∧
        repeated = .union ⟨union.name, union.description, union.typeKey, .byName keys⟩ := by
  simp [NamedType.redeclared?, eq_comm]

theorem name_of_redeclared? {type : NamedType} {repeated : TypeDef}
    (h : type.redeclared? = some repeated) : repeated.name = type.name := by
  cases type with
  | builtin => cases h
  | object | enum =>
    cases h
    rfl
  | union union =>
    obtain ⟨_, -, rfl⟩ := redeclared?_union_eq_some_iff.mp h
    rfl

section Types

variable {document : Document} {schema : Schema} {type : NamedType} {repeated : TypeDef}

/-- A registered type has a declaration, unless it is a built-in scalar. -/
theorem exists_redeclared? (hbuild : document.build = .ok schema)
    (hmem : type ∈ schema.registry.types) (hother : ∀ scalar, type ≠ .builtin scalar) :
    ∃ repeated, type.redeclared? = some repeated := by
  rcases registered_of_build hbuild hmem with
    ⟨scalar, rfl⟩ | ⟨_, -, hmakes⟩ | ⟨declaration, -, types, htypes, rfl⟩
  · exact absurd rfl (hother scalar)
  · cases hmakes <;> exact ⟨_, rfl⟩
  · exact ⟨_, redeclared?_union_eq_some_iff.mpr ⟨_, keys?_unionOf htypes.map_name, rfl⟩⟩

/-- The declaration of a registered type repeats the one that made it. -/
theorem repeats_of_build (hbuild : document.build = .ok schema) (hlisted : document.ListsByName)
    (hmem : type ∈ schema.registry.types) (h : type.redeclared? = some repeated) :
    ∃ declaration ∈ document.types, declaration.Repeats repeated := by
  rcases registered_of_build hbuild hmem with
    ⟨_, rfl⟩ | ⟨declaration, hdeclared, hmakes⟩ | ⟨declaration, hdeclared, types, htypes, rfl⟩
  · cases h
  · refine ⟨declaration, hdeclared, ?_⟩
    cases hmakes with
    | object hobject =>
      obtain ⟨-, hname, -, hmade⟩ := objectType_eq_ok_iff.mp hobject
      cases h
      refine .object hname (List.forall₂_map_right_iff.mpr (hmade.imp fun first field hfield => ?_))
      exact ⟨hfield.2.1, field.type, hfield.1, InputType.parse_text hfield.1⟩
    | enum =>
      cases h
      exact .enum rfl
  · refine ⟨_, hdeclared, ?_⟩
    obtain ⟨keys, hkeys, rfl⟩ := redeclared?_union_eq_some_iff.mp h
    obtain ⟨names, hnames⟩ := hlisted declaration hdeclared
    refine .union rfl ?_
    obtain rfl := Option.some.inj (hkeys.symm.trans (keys?_unionOf htypes.map_name))
    rw [hnames]
    rfl

/-- Distinct values are all kept. -/
theorem enumType_of_nodup {name : String} {description : Option String} {values : List String}
    (h : values.Nodup) :
    enumType ⟨name, description, values⟩ = ⟨name, description, values⟩ := by
  have hfold : ∀ known : List String, (known ++ values).Nodup → values.foldl
      (fun known value => if value ∈ known then known else known ++ [value]) known =
        known ++ values := by
    clear h
    induction values with
    | nil => simp
    | cons value rest ih =>
      intro known hnodup
      have hnew : value ∉ known := fun hmem =>
        (List.nodup_append.mp hnodup).2.2 value hmem value List.mem_cons_self rfl
      rw [List.foldl_cons, if_neg hnew, ih _ (by simpa using hnodup), List.append_assoc]
      rfl
  rw [enumType, EnumType.ofValues, hfold [] h, List.nil_append]

/-- A repeated value is dropped. -/
theorem nodup_enumType {declaration : EnumDef} : (enumType declaration).values.Nodup := by
  have hfold : ∀ known : List String, known.Nodup → (declaration.values.foldl
      (fun known value => if value ∈ known then known else known ++ [value]) known).Nodup := by
    induction declaration.values with
    | nil => simp
    | cons value rest ih =>
      intro known hknown
      rw [List.foldl_cons]
      refine ih _ ?_
      split
      · exact hknown
      · rename_i hnew
        exact nodup_snoc.mpr ⟨hknown, hnew⟩
  exact hfold [] List.nodup_nil

/-- Fields that are declared by the texts of their types are made again. -/
theorem map_of_makesField {fields fields' : List Field}
    (htexts : ∀ field ∈ fields, InputType.parse field.type.text = .ok field.type)
    (h : List.Forall₂ MakesField
      (fields.map fun field => (field.name, { typeText := field.type.text })) fields') :
    fields'.map (fun field => (field.name, field.type)) =
      fields.map fun field => (field.name, field.type) := by
  induction fields generalizing fields' with
  | nil =>
    cases h
    rfl
  | cons field fields ih =>
    obtain ⟨htext, htexts⟩ := List.forall_mem_cons.mp htexts
    cases h with
    | cons hfield hfields =>
      obtain ⟨htype, hname, -⟩ := hfield
      rw [List.map_cons, List.map_cons, hname, ih htexts hfields,
        Except.ok.inj (htype.symm.trans htext)]

/-- The description of an object depends on the names and types of its fields. -/
theorem entry_object {object object' : ObjectType} (hname : object'.name = object.name)
    (hdescription : object'.description = object.description)
    (hfields : object'.fields.map (fun field => (field.name, field.type)) =
      object.fields.map fun field => (field.name, field.type)) :
    (NamedType.object object').entry = (NamedType.object object).entry := by
  have hsame := congrArg
    (List.map fun pair : String × InputType => (pair.1, Json.string pair.2.text)) hfields
  rw [List.map_map, List.map_map] at hsame
  obtain ⟨name, description, fields⟩ := object
  obtain ⟨name', description', fields'⟩ := object'
  obtain rfl : name' = name := hname
  obtain rfl : description' = description := hdescription
  exact congrArg (fun fields => Json.object
    (("name", .string name') :: ("kind", .string "object") ::
      ([("fields", .object fields)] ++
        (NamedType.object ⟨name', description', []⟩).describedText))) hsame

/-- The type of a repeated declaration is described as the first one. -/
theorem entry_of_makesType (hbuild : document.build = .ok schema)
    (hmem : type ∈ schema.registry.types) (h : type.redeclared? = some repeated)
    {type' : NamedType} (hmakes : MakesType repeated type') : type'.entry = type.entry := by
  rcases registered_of_build hbuild hmem with
    ⟨_, rfl⟩ | ⟨declaration, -, hfirst⟩ | ⟨declaration, -, types, -, rfl⟩
  · cases h
  · cases hfirst with
    | @object _ object hobject =>
      obtain ⟨-, -, -, hmade⟩ := objectType_eq_ok_iff.mp hobject
      cases h
      cases hmakes with
      | @object _ object' hobject' =>
        obtain ⟨-, hname, hdescription, hmade'⟩ := objectType_eq_ok_iff.mp hobject'
        refine entry_object hname hdescription (map_of_makesField ?_ hmade')
        exact fun field hfield =>
          let ⟨_, _, hmakes⟩ := exists_declared hmade hfield
          InputType.parse_text hmakes.1
    | enum =>
      cases h
      cases hmakes
      exact congrArg (NamedType.entry ∘ .enum) (enumType_of_nodup nodup_enumType)
  · obtain ⟨_, -, rfl⟩ := redeclared?_union_eq_some_iff.mp h
    cases hmakes

theorem entry_unionOf {declaration : UnionDef} (h : type.redeclared? = some (.union declaration))
    {types : List NamedType} (hnames : types.map NamedType.name = declaration.inputTypes.names) :
    (NamedType.union (declaration.unionOf types)).entry = type.entry := by
  cases type with
  | builtin | object | enum => cases h
  | union union =>
    obtain ⟨keys, hkeys, hrepeated⟩ := redeclared?_union_eq_some_iff.mp h
    cases hrepeated
    have hsame : Schema.candidatesOf (UnionDef.unionOf ⟨union.name, union.description,
        union.typeKey, .byName keys⟩ types) = Schema.candidatesOf union := by
      rw [Schema.candidatesOf, Schema.candidatesOf, hkeys, keys?_unionOf hnames]
      rfl
    exact congrArg (fun parts => Json.object (("name", .string union.name) ::
      ("kind", .string "union") :: (parts ++ (NamedType.union union).describedText))) hsame

end Types

/-! ## The document of a description -/

section Redeclared

variable {document : Document} {schema : Schema}

/-- What the passes leave: the types of objects and enums, and behind them the unions in the order
of the walk. -/
theorem walk_of_build (hbuild : document.build = .ok schema) :
    ∃ types, List.Forall₂ MakesType document.otherDefs types ∧
      Appends (afterBuiltins types) schema ∧
      PostOrder (listedUnions document.unionDefs) [] (document.unionDefs.map UnionDef.name)
        (unionNames schema) ∧
      (document.unionDefs.map UnionDef.name).Nodup := by
  obtain ⟨_, unions, built, hcollect, hdisjoint, hensure, -⟩ := build_eq_ok_iff.mp hbuild
  obtain ⟨types, hcollects, rfl, -, -, hdistinct⟩ := collect_builtins_iff.mp hcollect
  obtain ⟨hmade, rfl⟩ := hcollects.split
  have hstart : Appends (afterBuiltins types) ⟨afterBuiltins types, []⟩ := by simp [Appends]
  have horder := ensureAll_postOrder
    (fun happends h => ensure_postOrder hdistinct hdisjoint (fun _ h => h) happends h) hstart
    hensure
  rw [List.filter_eq_self.mpr (by simp)] at horder
  exact ⟨types, hmade, (ensureAll_grows (fun h => ensure_grows h) hensure).1.appends hstart, horder,
    hdistinct⟩

theorem map_name_of_makesType {declarations : List TypeDef} {types : List NamedType}
    (h : List.Forall₂ MakesType declarations types) :
    declarations.map TypeDef.name = types.map NamedType.name := by
  induction h with
  | nil => rfl
  | cons hmakes _ ih => rw [List.map_cons, List.map_cons, hmakes.name_eq, ih]

/-- Objects and enums are declared as such. -/
theorem filter_redeclared_of_makesType {declarations : List TypeDef} {types : List NamedType}
    (h : List.Forall₂ MakesType declarations types) :
    ((types.filterMap NamedType.redeclared?).filter fun declaration =>
        declaration.union?.isNone).map TypeDef.name = types.map NamedType.name ∧
      (types.filterMap NamedType.redeclared?).filterMap TypeDef.union? = [] := by
  induction h with
  | nil => exact ⟨rfl, rfl⟩
  | @cons _ type _ types hmakes _ ih =>
    obtain ⟨repeated, hrepeated, hother⟩ :
        ∃ repeated, type.redeclared? = some repeated ∧ repeated.union? = none := by
      cases hmakes <;> exact ⟨_, rfl, rfl⟩
    rw [List.filterMap_cons_some hrepeated, List.filter_cons_of_pos (by simp [hother]),
      List.filterMap_cons_none hother, List.map_cons, List.map_cons, ih.1,
      name_of_redeclared? hrepeated]
    exact ⟨rfl, ih.2⟩

/-- Unions are declared as such. -/
theorem filter_redeclared_of_keys {unions : List UnionType}
    (h : ∀ union ∈ unions, ∃ keys, union.lookup.keys? = some keys) :
    ((unions.map NamedType.union).filterMap NamedType.redeclared?).filter (fun declaration =>
        declaration.union?.isNone) = [] ∧
      (((unions.map NamedType.union).filterMap NamedType.redeclared?).filterMap
        TypeDef.union?).map UnionDef.name = unions.map UnionType.name := by
  induction unions with
  | nil => exact ⟨rfl, rfl⟩
  | cons union unions ih =>
    obtain ⟨⟨keys, hkeys⟩, hunions⟩ := List.forall_mem_cons.mp h
    have hrepeated := redeclared?_union_eq_some_iff.mpr ⟨keys, hkeys, rfl⟩
    obtain ⟨hothers, hnames⟩ := ih hunions
    rw [List.map_cons, List.filterMap_cons_some hrepeated,
      List.filter_cons_of_neg (by simp [TypeDef.union?])]
    exact ⟨hothers, congrArg (union.name :: ·) hnames⟩

/-- The types are declared in the order of the registry, objects and enums in front of unions. -/
theorem names_redeclared (hbuild : document.build = .ok schema) {declarations : List TypeDef}
    {types : List NamedType} (hmade : List.Forall₂ MakesType declarations types)
    (happends : Appends (afterBuiltins types) schema) :
    schema.redeclared.otherDefs.map TypeDef.name = types.map NamedType.name ∧
      schema.redeclared.unionDefs.map UnionDef.name = unionNames schema := by
  have hkeys : ∀ union ∈ schema.unions, ∃ keys, union.lookup.keys? = some keys :=
    fun union hmem =>
      let ⟨_, declaration, _, _, hkeys⟩ := keys?_of_build hbuild hmem
      ⟨declaration.inputTypes.keys, hkeys⟩
  have hbuiltins : Registry.builtins.types.filterMap NamedType.redeclared? = [] := rfl
  have htypes : schema.redeclared.types = types.filterMap NamedType.redeclared? ++
      (schema.unions.map NamedType.union).filterMap NamedType.redeclared? := by
    rw [Schema.redeclared, happends, afterBuiltins, List.filterMap_append, List.filterMap_append,
      hbuiltins, List.nil_append]
  obtain ⟨hothers, hnone⟩ := filter_redeclared_of_makesType hmade
  obtain ⟨hnone', hunions⟩ := filter_redeclared_of_keys hkeys
  rw [otherDefs, unionDefs, htypes, List.filter_append, List.filterMap_append, hnone, hnone',
    List.append_nil, List.nil_append]
  exact ⟨hothers, hunions⟩

theorem mem_unionDefs {declaration : UnionDef} :
    declaration ∈ document.unionDefs ↔ .union declaration ∈ document.types := by
  refine List.mem_filterMap.trans ⟨?_, fun hmem => ⟨_, hmem, rfl⟩⟩
  rintro ⟨other, hmem, hunion⟩
  cases other with
  | object | enum => cases hunion
  | union => exact Option.some.inj hunion ▸ hmem

theorem sublist_names_redeclared {types : List NamedType} :
    ((types.filterMap NamedType.redeclared?).map TypeDef.name).Sublist
      (types.map NamedType.name) := by
  induction types with
  | nil => exact .slnil
  | cons type types ih =>
    cases hrepeated : type.redeclared? with
    | none =>
      rw [List.filterMap_cons_none hrepeated]
      exact ih.cons _
    | some repeated =>
      rw [List.filterMap_cons_some hrepeated, List.map_cons, List.map_cons,
        name_of_redeclared? hrepeated]
      exact ih.cons_cons _

/-- Whatever is declared is registered. -/
theorem mem_names_of_build (hbuild : document.build = .ok schema) {declaration : TypeDef}
    (hmem : declaration ∈ document.types) : declaration.name ∈ schema.registry.names := by
  obtain ⟨type, hget⟩ : ∃ type, schema.registry.get? declaration.name = some type := by
    cases declaration with
    | object declaration =>
      obtain ⟨object, hobject⟩ := exists_objectType_of_build hbuild hmem
      exact ⟨_, get?_of_makesType hbuild hmem (.object hobject)⟩
    | enum declaration => exact ⟨_, get?_of_makesType hbuild hmem .enum⟩
    | union declaration =>
      obtain ⟨types, hbuilt⟩ := built_of_build hbuild hmem
      exact ⟨_, hbuilt.registered⟩
  obtain ⟨hregistered, hname⟩ := Registry.get?_some hget
  exact hname ▸ List.mem_map_of_mem hregistered

/-- The document of a description is well-formed. -/
theorem wellFormed_redeclared (hbuild : document.build = .ok schema)
    (hlisted : document.ListsByName) : schema.redeclared.WellFormed := by
  have hwf := wellFormed_of_build hbuild
  refine wellFormed_of_repeats hwf (fun repeated hmem => ?_)
    (sublist_names_redeclared.nodup (nodup_names_of_build hbuild)) fun declaration hmem => ?_
  · obtain ⟨type, hmem, hrepeated⟩ := List.mem_filterMap.mp hmem
    exact repeats_of_build hbuild hlisted hmem hrepeated
  · obtain ⟨type, hregistered, hname⟩ := List.mem_map.mp (mem_names_of_build hbuild hmem)
    have hother : ∀ scalar, type ≠ .builtin scalar := by
      rintro scalar rfl
      exact hwf.notBuiltin declaration hmem scalar hname.symm
    obtain ⟨repeated, hrepeated⟩ := exists_redeclared? hbuild hregistered hother
    exact ⟨repeated, List.mem_filterMap.mpr ⟨type, hregistered, hrepeated⟩,
      (name_of_redeclared? hrepeated).trans hname⟩

/-- A known union lists the same unions in the description as in the document. -/
theorem listedUnions_redeclared (hbuild : document.build = .ok schema)
    (hlisted : document.ListsByName)
    (hdistinct : (document.unionDefs.map UnionDef.name).Nodup)
    (hdistinct' : (schema.redeclared.unionDefs.map UnionDef.name).Nodup)
    (hnames : schema.redeclared.unionDefs.map UnionDef.name = unionNames schema) {name : String}
    (hname : name ∈ unionNames schema) :
    ∀ other ∈ listedUnions schema.redeclared.unionDefs name,
      other ∈ listedUnions document.unionDefs name := by
  have hdeclared : ∀ name ∈ unionNames schema, name ∈ document.unionDefs.map UnionDef.name := by
    intro name hname
    obtain ⟨union, hunion, rfl⟩ := List.mem_map.mp hname
    obtain ⟨-, declaration, hmem, hsame, -⟩ := keys?_of_build hbuild hunion
    exact List.mem_map.mpr ⟨declaration, mem_unionDefs.mpr hmem, hsame⟩
  obtain ⟨union, hunion, rfl⟩ := List.mem_map.mp hname
  obtain ⟨-, declaration, hmem, hsame, hkeys⟩ := keys?_of_build hbuild hunion
  obtain ⟨names, hbyName⟩ := hlisted declaration hmem
  have hmem' : ⟨union.name, union.description, union.typeKey, .byName _⟩ ∈
      schema.redeclared.unionDefs :=
    mem_unionDefs.mpr (List.mem_filterMap.mpr ⟨_, (mem_unions_iff_of_build hbuild).mp hunion,
      redeclared?_union_eq_some_iff.mpr ⟨_, hkeys, rfl⟩⟩)
  rw [listedUnions_eq hdistinct' hmem', ← hsame, listedUnions_eq hdistinct (mem_unionDefs.mpr hmem),
    hnames, hbyName]
  intro other hother
  obtain ⟨hother, hknown⟩ := List.mem_filter.mp hother
  exact List.mem_filter.mpr ⟨hother, by simpa using hdeclared other (by simpa using hknown)⟩

/-- A union comes behind those that it lists, so the walk leaves unions in the order of the
description. -/
theorem unionNames_of_redeclared (hbuild : document.build = .ok schema)
    (hlisted : document.ListsByName) {schema' : Schema}
    (hbuild' : schema.redeclared.build = .ok schema') : unionNames schema' = unionNames schema := by
  obtain ⟨types, hmade, happends, horder, hdistinct⟩ := walk_of_build hbuild
  obtain ⟨-, -, -, horder', hdistinct'⟩ := walk_of_build hbuild'
  have hnames := (names_redeclared hbuild hmade happends).2
  have hself : PostOrder (listedUnions schema.redeclared.unionDefs) [] (unionNames schema)
      (unionNames schema) := by
    refine PostOrder.self (fun before name after hsplit other hother => ?_) (hnames ▸ hdistinct')
    rw [List.nil_append] at hsplit
    refine horder.ordered .nil before name after hsplit other ?_
    refine listedUnions_redeclared hbuild hlisted hdistinct hdistinct' hnames ?_ other hother
    simp [hsplit]
  rw [hnames] at horder'
  exact horder'.functional hself

/-- What is registered in the end is described as what was described. -/
theorem exists_entry_of_redeclared (hbuild : document.build = .ok schema) {schema' : Schema}
    (hbuild' : schema.redeclared.build = .ok schema') :
    ∀ type' ∈ schema'.registry.types, ∃ type ∈ schema.registry.types, type.name = type'.name ∧
      type'.entry = type.entry := by
  intro type' hmem
  rcases registered_of_build hbuild' hmem with
    ⟨scalar, rfl⟩ | ⟨repeated, hrepeated, hmakes⟩ | ⟨repeated, hrepeated, types, htypes, rfl⟩
  · exact ⟨_, (Registry.get?_some (get?_builtin_of_build hbuild scalar)).1, rfl, rfl⟩
  · obtain ⟨type, hregistered, h⟩ := List.mem_filterMap.mp hrepeated
    exact ⟨type, hregistered, (name_of_redeclared? h).symm.trans hmakes.name_eq,
      entry_of_makesType hbuild hregistered h hmakes⟩
  · obtain ⟨type, hregistered, h⟩ := List.mem_filterMap.mp hrepeated
    exact ⟨type, hregistered, (name_of_redeclared? h).symm, entry_unionOf h htypes.map_name⟩

/-- The names of the registry are the same in the same order. -/
theorem names_of_redeclared (hbuild : document.build = .ok schema)
    (hlisted : document.ListsByName) {schema' : Schema}
    (hbuild' : schema.redeclared.build = .ok schema') :
    schema'.registry.names = schema.registry.names := by
  obtain ⟨types, hmade, happends, -⟩ := walk_of_build hbuild
  obtain ⟨types', hmade', happends', -⟩ := walk_of_build hbuild'
  rw [happends.names_eq, happends'.names_eq, names_afterBuiltins, names_afterBuiltins,
    unionNames_of_redeclared hbuild hlisted hbuild', ← map_name_of_makesType hmade',
    (names_redeclared hbuild hmade happends).1]

/-- Where keys are distinct, lists with the same keys agree if each item agrees with one of its key.
-/
theorem map_eq_of_map_eq {α β γ : Type} {key : α → β} {f : α → γ} {items items' : List α}
    (hkeys : items'.map key = items.map key) (hdistinct : (items.map key).Nodup)
    (h : ∀ item' ∈ items', ∃ item ∈ items, key item = key item' ∧ f item' = f item) :
    items'.map f = items.map f := by
  have hlength : items'.length = items.length := by simpa using congrArg List.length hkeys
  refine List.ext_getElem (by simpa using hlength) fun index hindex hindex' => ?_
  rw [List.length_map] at hindex hindex'
  have hkey : key items'[index] = key items[index] := by
    have hat := congrArg (fun keys => keys[index]?) hkeys
    simpa [hindex, hindex'] using hat
  obtain ⟨item, hmem, hsame, hf⟩ := h items'[index] (List.getElem_mem hindex)
  obtain rfl :=
    List.inj_on_of_nodup_map hdistinct hmem (List.getElem_mem hindex') (hsame.trans hkey)
  simpa using hf

/-- **A description is a document of the schema that it describes.** Read as a document, without the
scalars, it declares every object, enum and union again, in the order of the registry. It builds,
and the schema that it builds has the same description, in the same order. -/
theorem describe_redeclared (hbuild : document.build = .ok schema)
    (hlisted : document.ListsByName) :
    read schema.describe.withoutScalars.compact = .ok schema.redeclared ∧
      ∃ schema', schema.redeclared.build = .ok schema' ∧ schema'.describe = schema.describe := by
  constructor
  · rw [describe_of_build hbuild, withoutScalars_entries]
    exact read_entries (redeclares_filterMap fun type hmem => exists_redeclared? hbuild hmem)
  · obtain ⟨schema', hbuild'⟩ := exists_build_of_wellFormed (wellFormed_redeclared hbuild hlisted)
    refine ⟨schema', hbuild', ?_⟩
    rw [describe_of_build hbuild, describe_of_build hbuild',
      map_eq_of_map_eq (names_of_redeclared hbuild hlisted hbuild') (nodup_names_of_build hbuild)
        (exists_entry_of_redeclared hbuild hbuild')]

end Redeclared

/-- Shapes `S` are declared in front of the round shapes `R` that they list. A color is repeated,
and the field of discs `D` has a default and odd blanks. -/
def shapeDocument : Document :=
  ⟨[.union ⟨"S", none, none, .byName ["R"]⟩,
    .enum ⟨"C", none, ["r", "r"]⟩,
    .object ⟨"D", some "circle", [("f", ⟨" [C] ", none, some (.array [])⟩)]⟩,
    .union ⟨"R", none, some "k", .byName ["D"]⟩]⟩

/-- The object type of discs. -/
def discType : ObjectType :=
  ⟨"D", some "circle", [⟨"f", .list (.reference "C"), none, some (.array [])⟩]⟩

/-- The union of round shapes. -/
def roundUnion : UnionType :=
  UnionDef.unionOf ⟨"R", none, some "k", .byName ["D"]⟩ [.object discType]

/-- The union of shapes. -/
def shapeUnion : UnionType :=
  UnionDef.unionOf ⟨"S", none, none, .byName ["R"]⟩ [.union roundUnion]

/-- The schema of shapes. -/
def shapeSchema : Schema :=
  withUnion (withUnion ⟨afterBuiltins [.enum ⟨"C", none, ["r"]⟩, .object discType], []⟩
    roundUnion) shapeUnion

theorem build_shapeDocument : shapeDocument.build = .ok shapeSchema := by
  cbv

/-- The document of their description. -/
def redeclaredShapes : Document :=
  ⟨[.enum ⟨"C", none, ["r"]⟩,
    .object ⟨"D", some "circle", [("f", ⟨"[C]", none, none⟩)]⟩,
    .union ⟨"R", none, some "k", .byName ["D"]⟩,
    .union ⟨"S", none, none, .byName ["R"]⟩]⟩

theorem redeclared_shapeSchema : shapeSchema.redeclared = redeclaredShapes := by
  cbv

/-- Shapes are described behind rounds, which they list. -/
theorem describe_redeclared_shape :
    read shapeSchema.describe.withoutScalars.compact = .ok redeclaredShapes ∧
      ∃ schema', redeclaredShapes.build = .ok schema' ∧
        schema'.describe = shapeSchema.describe := by
  have hlisted : shapeDocument.ListsByName := by
    simp [ListsByName, shapeDocument]
  rw [← redeclared_shapeSchema]
  exact describe_redeclared build_shapeDocument hlisted

end Document

end TaggedUnion
