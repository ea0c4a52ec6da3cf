import TaggedUnion.Proofs.Schema.Order

/-!
# Well-formed documents

A document makes a schema exactly if it is well-formed. Building goes over the declarations three
times; being well-formed is said of the document as a whole.

* `Document.WellFormed`: what is asked of a document.
* `build_iff_wellFormed`: building succeeds on the well-formed documents and on no others.
-/

namespace TaggedUnion

/-- The declared name. -/
def TypeDef.name : TypeDef → String
  | object declaration => declaration.name
  | enum declaration => declaration.name
  | union declaration => declaration.name

namespace Document

/-- A name that a document may refer to: a declared or a built-in one. -/
def Knows (document : Document) (name : String) : Prop :=
  (∃ declaration ∈ document.types, declaration.name = name) ∨ ∃ scalar : Builtin, scalar.name = name

/-- A declared union lists another one as a candidate. -/
def ListsUnion (document : Document) (name listed : String) : Prop :=
  ∃ declaration, .union declaration ∈ document.types ∧ declaration.name = name ∧
    listed ∈ declaration.inputTypes.names ∧
      ∃ other, .union other ∈ document.types ∧ other.name = listed

/-- What is asked of a document. -/
structure WellFormed (document : Document) : Prop where
  /-- Names obey the name rule. -/
  name : ∀ declaration ∈ document.types, Text.isName declaration.name
  /-- No name is declared twice. -/
  distinct : (document.types.map TypeDef.name).Nodup
  /-- No name is that of a built-in scalar. -/
  notBuiltin : ∀ declaration ∈ document.types, ∀ scalar : Builtin, declaration.name ≠ scalar.name
  /-- No object repeats a field. -/
  fields : ∀ declaration, .object declaration ∈ document.types →
    (declaration.fields.map Prod.fst).Nodup
  /-- The type of each field can be read and is known. -/
  fieldType : ∀ declaration, .object declaration ∈ document.types →
    ∀ field ∈ declaration.fields, ∃ type, InputType.parse field.2.typeText = .ok type ∧
      document.Knows type.innermostName
  /-- Each candidate of a union is known and is not an enum. -/
  candidate : ∀ declaration, .union declaration ∈ document.types →
    ∀ name ∈ declaration.inputTypes.names, document.Knows name ∧
      ∀ other, .enum other ∈ document.types → other.name ≠ name
  /-- No union repeats a key. -/
  keys : ∀ declaration, .union declaration ∈ document.types → declaration.inputTypes.keys.Nodup
  /-- No union leads back to itself through its candidates. -/
  acyclic : ∀ name, ¬Relation.TransGen document.ListsUnion name name

/-! ## The declarations that are collected -/

/-- The registry after the first pass. -/
def afterBuiltins (types : List NamedType) : Registry := ⟨Registry.builtins.types ++ types⟩

theorem names_afterBuiltins {types : List NamedType} :
    (afterBuiltins types).names = Registry.builtins.names ++ types.map NamedType.name :=
  List.map_append

theorem mem_names_builtins {name : String} :
    name ∈ Registry.builtins.names ↔ ∃ scalar : Builtin, scalar.name = name := by
  have hall : ∀ scalar : Builtin, scalar ∈ Builtin.all := by
    intro scalar
    cases scalar <;> decide
  simp [Registry.names, Registry.builtins, NamedType.name, hall]

theorem MakesType.name_eq {declaration : TypeDef} {type : NamedType}
    (h : MakesType declaration type) : declaration.name = type.name := by
  cases h with
  | object hobject => exact (objectType_eq_ok_iff.mp hobject).2.1.symm
  | enum => rfl

/-- A declaration makes at most one type. -/
theorem MakesType.functional {declaration : TypeDef} {type type' : NamedType}
    (h : MakesType declaration type) (h' : MakesType declaration type') : type = type' := by
  cases h with
  | object hobject =>
    cases h' with
    | object hobject' =>
      cases hobject.symm.trans hobject'
      rfl
  | enum =>
    cases h'
    rfl

namespace Collects

variable {declarations : List TypeDef} {types : List NamedType} {unions : List UnionDef}

theorem mem_unions (h : Collects declarations types unions) {declaration : UnionDef} :
    declaration ∈ unions ↔ .union declaration ∈ declarations := by
  induction h with
  | nil => simp
  | type hmakes _ ih => cases hmakes <;> simp [ih]
  | union _ ih => simp [ih]

theorem mem_types (h : Collects declarations types unions) {type : NamedType} :
    type ∈ types ↔ ∃ declaration ∈ declarations, MakesType declaration type := by
  induction h with
  | nil => simp
  | type hmakes _ ih =>
    rw [List.mem_cons, ih, List.exists_mem_cons_iff]
    refine or_congr_left ⟨?_, fun h => ?_⟩
    · rintro rfl
      exact hmakes
    · exact h.functional hmakes
  | union _ ih =>
    rw [ih, List.exists_mem_cons_iff]
    refine ⟨.inr, fun h => h.resolve_left ?_⟩
    rintro ⟨⟩

/-- Every declaration makes a type or is a union, under its own name. -/
theorem perm_names (h : Collects declarations types unions) :
    (declarations.map TypeDef.name).Perm
      (types.map NamedType.name ++ unions.map UnionDef.name) := by
  induction h with
  | nil => exact .nil
  | type hmakes _ ih =>
    rw [List.map_cons, List.map_cons, List.cons_append, hmakes.name_eq]
    exact ih.cons _
  | union _ ih =>
    rw [List.map_cons, List.map_cons]
    exact (ih.cons _).trans List.perm_middle.symm

/-- Declarations can be collected if each object type can be made. -/
theorem exists_iff : (∃ types unions, Collects declarations types unions) ↔
    ∀ declaration, .object declaration ∈ declarations →
      ∃ object, objectType declaration = .ok object := by
  constructor
  · rintro ⟨types, unions, h⟩ declaration hmem
    induction h with
    | nil => simp at hmem
    | type hmakes _ ih =>
      rcases List.mem_cons.mp hmem with rfl | hmem
      · cases hmakes
        exact ⟨_, ‹_›⟩
      · exact ih hmem
    | union _ ih => exact ih (by simpa using hmem)
  · intro h
    induction declarations with
    | nil => exact ⟨[], [], .nil⟩
    | cons declaration rest ih =>
      obtain ⟨types, unions, hrest⟩ := ih fun other hmem => h other (List.mem_cons_of_mem _ hmem)
      cases declaration with
      | object declaration =>
        obtain ⟨object, hobject⟩ := h declaration List.mem_cons_self
        exact ⟨_, _, .type (.object hobject) hrest⟩
      | enum declaration => exact ⟨_, _, .type .enum hrest⟩
      | union declaration => exact ⟨_, _, .union hrest⟩

/-- The names that a document knows are those of built-in scalars, of the types that are made, and
of unions. -/
theorem knows_iff {document : Document} (h : Collects document.types types unions) {name : String} :
    document.Knows name ↔ name ∈ (afterBuiltins types).names ∨
      ∃ declaration ∈ unions, declaration.name = name := by
  have hnames : (∃ declaration ∈ document.types, declaration.name = name) ↔
      name ∈ types.map NamedType.name ∨ ∃ declaration ∈ unions, declaration.name = name := by
    have hmem := h.perm_names.mem_iff (a := name)
    rw [List.mem_append] at hmem
    simpa using hmem
  rw [Knows, hnames, names_afterBuiltins, List.mem_append, mem_names_builtins, or_comm, ← or_assoc]

/-- No name is taken twice in the passes exactly if none is taken twice in the document, and none is
that of a built-in scalar. -/
theorem nodup_iff (h : Collects declarations types unions) :
    ((afterBuiltins types).names.Nodup ∧ (unions.map UnionDef.name).Nodup ∧
        ∀ declaration ∈ unions, declaration.name ∉ (afterBuiltins types).names) ↔
      (declarations.map TypeDef.name).Nodup ∧
        ∀ declaration ∈ declarations, ∀ scalar : Builtin, declaration.name ≠ scalar.name := by
  have hperm := h.perm_names
  constructor
  · rintro ⟨htypes, hunions, hdisjoint⟩
    have hall : ((afterBuiltins types).names ++ unions.map UnionDef.name).Nodup := by
      refine List.nodup_append.mpr ⟨htypes, hunions, fun name hname other hother heq => ?_⟩
      obtain ⟨declaration, hmem, rfl⟩ := List.mem_map.mp hother
      exact hdisjoint declaration hmem (heq ▸ hname)
    rw [names_afterBuiltins, List.append_assoc] at hall
    obtain ⟨-, hdeclared, hbuiltin⟩ := List.nodup_append.mp hall
    refine ⟨hperm.nodup_iff.mpr hdeclared, fun declaration hmem scalar heq => ?_⟩
    exact hbuiltin scalar.name (mem_names_builtins.mpr ⟨scalar, rfl⟩) declaration.name
      (hperm.mem_iff.mp (List.mem_map_of_mem hmem)) heq.symm
  · rintro ⟨hdistinct, hnot⟩
    have hall : (Registry.builtins.names ++
        (types.map NamedType.name ++ unions.map UnionDef.name)).Nodup := by
      refine List.nodup_append.mpr ⟨by decide, hperm.nodup_iff.mp hdistinct, ?_⟩
      rintro name hname other hother rfl
      obtain ⟨scalar, rfl⟩ := mem_names_builtins.mp hname
      obtain ⟨declaration, hmem, heq⟩ := List.mem_map.mp (hperm.mem_iff.mpr hother)
      exact hnot declaration hmem scalar heq
    rw [← List.append_assoc, ← names_afterBuiltins] at hall
    obtain ⟨htypes, hunions, hdisjoint⟩ := List.nodup_append.mp hall
    refine ⟨htypes, hunions, fun declaration hmem hname => ?_⟩
    exact hdisjoint _ hname _ (List.mem_map_of_mem hmem) rfl

/-- A name stands for an enum exactly if an enum is declared under it. -/
theorem get?_enum_iff (h : Collects declarations types unions)
    (hnodup : (afterBuiltins types).names.Nodup) {name : String} :
    (∀ type, (afterBuiltins types).get? name = some type → type.kind ≠ .enum) ↔
      ∀ declaration, .enum declaration ∈ declarations → declaration.name ≠ name := by
  constructor
  · rintro hkind declaration hmem rfl
    have htype : NamedType.enum (enumType declaration) ∈ (afterBuiltins types).types :=
      List.mem_append_right _ (h.mem_types.mpr ⟨_, hmem, .enum⟩)
    exact hkind _ (Registry.get?_name hnodup htype) rfl
  · intro hname type hget hkind
    obtain ⟨hmem, rfl⟩ := Registry.get?_some hget
    rcases List.mem_append.mp hmem with hbuiltin | htype
    · obtain ⟨scalar, -, rfl⟩ := List.mem_map.mp hbuiltin
      simp [NamedType.kind] at hkind
    · obtain ⟨declaration, hdeclaration, hmakes⟩ := h.mem_types.mp htype
      cases hmakes with
      | object => simp [NamedType.kind] at hkind
      | enum => exact hname _ hdeclaration rfl

/-- What is asked of unions, said of the document. -/
theorem unionsBuildable_iff {document : Document} (h : Collects document.types types unions)
    (hnodup : (afterBuiltins types).names.Nodup) :
    UnionsBuildable (afterBuiltins types) unions ↔
      (∀ declaration, .union declaration ∈ document.types → Text.isName declaration.name ∧
        declaration.inputTypes.keys.Nodup ∧ ∀ name ∈ declaration.inputTypes.names,
          document.Knows name ∧ ∀ other, .enum other ∈ document.types → other.name ≠ name) ∧
      ∀ name, ¬Relation.TransGen document.ListsUnion name name := by
  have hlists : Lists unions = document.ListsUnion := by
    funext name listed
    simp only [Lists, ListsUnion, h.mem_unions]
  simp only [← h.mem_unions, h.knows_iff, ← h.get?_enum_iff hnodup, ← hlists]
  constructor
  · rintro ⟨hname, hkeys, hcandidate, hkind, hacyclic⟩
    exact ⟨fun declaration hmem => ⟨hname declaration hmem, hkeys declaration hmem,
      fun name hlisted => ⟨hcandidate declaration hmem name hlisted,
        hkind declaration hmem name hlisted⟩⟩, hacyclic⟩
  · rintro ⟨hunions, hacyclic⟩
    exact ⟨fun declaration hmem => (hunions declaration hmem).1,
      fun declaration hmem => (hunions declaration hmem).2.1,
      fun declaration hmem name hlisted => ((hunions declaration hmem).2.2 name hlisted).1,
      fun declaration hmem name hlisted => ((hunions declaration hmem).2.2 name hlisted).2,
      hacyclic⟩

end Collects

/-! ## The passes put together -/

theorem checkReferences_eq_ok_iff {document : Document} {registry : Registry} :
    document.types.forM (checkReferences registry) = .ok () ↔
      ∀ declaration, .object declaration ∈ document.types → ∀ field ∈ declaration.fields,
        ∃ type, InputType.parse field.2.typeText = .ok type ∧
          type.innermostName ∈ registry.names := by
  rw [forM_eq_ok]
  have hfields : ∀ declaration : ObjectDef, checkFields registry declaration = .ok () ↔
      ∀ field ∈ declaration.fields, ∃ type, InputType.parse field.2.typeText = .ok type ∧
        type.innermostName ∈ registry.names := by
    intro declaration
    unfold checkFields
    rw [forM_eq_ok]
    refine forall₂_congr fun field _ => ?_
    cases htype : InputType.parse field.2.typeText with
    | error error => simp [htype]
    | ok type =>
      by_cases hknown : type.innermostName ∈ registry.names
      · simp [htype, Registry.contains_iff.mpr hknown, hknown]
      · simp [htype, mt Registry.contains_iff.mp hknown, hknown]
  constructor
  · intro h declaration hmem
    exact (hfields declaration).mp (h _ hmem)
  · intro h declaration hmem
    cases declaration with
    | object declaration => exact (hfields declaration).mpr (h declaration hmem)
    | enum declaration => rfl
    | union declaration => rfl

theorem build_eq_ok_iff {document : Document} {schema : Schema} :
    document.build = .ok schema ↔ ∃ registry unions types,
      document.types.foldlM collect (Registry.builtins, []) = .ok (registry, unions) ∧
        (∀ declaration ∈ unions, declaration.name ∉ registry.names) ∧
          ensureAll unions [] (unions.map UnionDef.name) ⟨registry, []⟩ = .ok (types, schema) ∧
            document.types.forM (checkReferences schema.registry) = .ok () := by
  unfold build
  constructor
  · intro h
    split at h
    · simp at h
    · rename_i registry unions hcollect
      split at h
      · simp at h
      · rename_i hfind
        split at h
        · simp at h
        · rename_i types schema' hensure
          obtain ⟨⟨⟩, hcheck, rfl⟩ := map_eq_ok.mp h
          refine ⟨registry, unions, types, hcollect, fun declaration hmem hname => ?_, hensure,
            hcheck⟩
          exact List.find?_eq_none.mp hfind declaration hmem (Registry.contains_iff.mpr hname)
  · rintro ⟨registry, unions, types, hcollect, hdisjoint, hensure, hcheck⟩
    have hfind : (unions.find? fun union => registry.contains union.name) = none :=
      List.find?_eq_none.mpr fun declaration hmem hcontains =>
        hdisjoint declaration hmem (Registry.contains_iff.mp hcontains)
    simp only [hcollect, hfind, hensure, hcheck]
    rfl

/-- The names that are registered in the end are the ones that the document knows. -/
theorem knows_iff_registered {document : Document} {types : List NamedType}
    {unions : List UnionDef} (h : Collects document.types types unions) {schema : Schema}
    {built : List NamedType}
    (hensure : ensureAll unions [] (unions.map UnionDef.name) ⟨afterBuiltins types, []⟩ =
      .ok (built, schema)) {name : String} :
    document.Knows name ↔ name ∈ schema.registry.names := by
  obtain ⟨hgrows, hresolves⟩ := ensureAll_grows (fun h => ensure_grows h) hensure
  rw [h.knows_iff]
  constructor
  · rintro (hname | ⟨declaration, hmem, rfl⟩)
    · exact hgrows.names_subset hname
    · exact hresolves.mem_names (List.mem_map_of_mem hmem)
  · exact hgrows.mem_names

theorem collect_builtins_iff {document : Document} {registry : Registry}
    {unions : List UnionDef} :
    document.types.foldlM collect (Registry.builtins, []) = .ok (registry, unions) ↔
      ∃ types, Collects document.types types unions ∧ registry = afterBuiltins types ∧
        (∀ type ∈ types, Text.isName type.name) ∧ registry.names.Nodup ∧
          (unions.map UnionDef.name).Nodup := by
  rw [foldlM_collect_eq_ok_iff (by decide) (by simp)]
  constructor
  · rintro ⟨types, new, hcollects, rfl, rfl, hrest⟩
    exact ⟨types, hcollects, rfl, hrest⟩
  · rintro ⟨types, hcollects, rfl, hrest⟩
    exact ⟨types, unions, hcollects, rfl, rfl, hrest⟩

theorem wellFormed_of_build {document : Document} {schema : Schema}
    (hbuild : document.build = .ok schema) : document.WellFormed := by
  obtain ⟨_, unions, built, hcollect, hdisjoint, hensure, hcheck⟩ := build_eq_ok_iff.mp hbuild
  obtain ⟨types, hcollects, rfl, hvalid, htypes, hunions⟩ := collect_builtins_iff.mp hcollect
  have hbuildable := (ensureAll_iff hunions hdisjoint).mp ⟨_, hensure⟩
  obtain ⟨hdistinct, hnotBuiltin⟩ := hcollects.nodup_iff.mp ⟨htypes, hunions, hdisjoint⟩
  obtain ⟨hdeclared, hacyclic⟩ := (hcollects.unionsBuildable_iff htypes).mp hbuildable
  have hobjects := Collects.exists_iff.mp ⟨types, unions, hcollects⟩
  refine ⟨fun declaration hmem => ?_, hdistinct, hnotBuiltin, fun declaration hmem => ?_,
    fun declaration hmem field hfield => ?_,
    fun declaration hmem => (hdeclared declaration hmem).2.2,
    fun declaration hmem => (hdeclared declaration hmem).2.1, hacyclic⟩
  · have hname := hcollects.perm_names.mem_iff.mp (List.mem_map_of_mem hmem)
    rcases List.mem_append.mp hname with htype | hunion
    · obtain ⟨type, hmem, heq⟩ := List.mem_map.mp htype
      exact heq ▸ hvalid type hmem
    · obtain ⟨union, hmem, heq⟩ := List.mem_map.mp hunion
      exact heq ▸ (hdeclared union (hcollects.mem_unions.mp hmem)).1
  · exact (exists_objectType_iff.mp (hobjects declaration hmem)).1
  · obtain ⟨type, htype, hname⟩ := checkReferences_eq_ok_iff.mp hcheck declaration hmem field hfield
    exact ⟨type, htype, (knows_iff_registered hcollects hensure).mpr hname⟩

theorem exists_build_of_wellFormed {document : Document} (h : document.WellFormed) :
    ∃ schema, document.build = .ok schema := by
  have hobjects : ∀ declaration, .object declaration ∈ document.types →
      ∃ object, objectType declaration = .ok object := by
    intro declaration hmem
    refine exists_objectType_iff.mpr ⟨h.fields declaration hmem, fun field hfield => ?_⟩
    obtain ⟨type, htype, -⟩ := h.fieldType declaration hmem field hfield
    exact ⟨type, htype⟩
  obtain ⟨types, unions, hcollects⟩ := Collects.exists_iff.mpr hobjects
  obtain ⟨htypes, hunions, hdisjoint⟩ := hcollects.nodup_iff.mpr ⟨h.distinct, h.notBuiltin⟩
  have hvalid : ∀ type ∈ types, Text.isName type.name := by
    intro type hmem
    obtain ⟨declaration, hdeclaration, hmakes⟩ := hcollects.mem_types.mp hmem
    exact hmakes.name_eq ▸ h.name declaration hdeclaration
  have hbuildable : UnionsBuildable (afterBuiltins types) unions :=
    (hcollects.unionsBuildable_iff htypes).mpr ⟨fun declaration hmem =>
      ⟨h.name _ hmem, h.keys declaration hmem, h.candidate declaration hmem⟩, h.acyclic⟩
  obtain ⟨⟨built, schema⟩, hensure⟩ := (ensureAll_iff hunions hdisjoint).mpr hbuildable
  have hcollect := collect_builtins_iff.mpr ⟨types, hcollects, rfl, hvalid, htypes, hunions⟩
  refine ⟨schema, build_eq_ok_iff.mpr ⟨_, unions, built, hcollect, hdisjoint, hensure, ?_⟩⟩
  refine checkReferences_eq_ok_iff.mpr fun declaration hmem field hfield => ?_
  obtain ⟨type, htype, hknows⟩ := h.fieldType declaration hmem field hfield
  exact ⟨type, htype, (knows_iff_registered hcollects hensure).mp hknows⟩

/-- **Which documents make a schema.** A document makes a schema exactly if it is well-formed. -/
theorem build_iff_wellFormed (document : Document) :
    (∃ schema, document.build = .ok schema) ↔ document.WellFormed :=
  ⟨fun ⟨_, hbuild⟩ => wellFormed_of_build hbuild, exists_build_of_wellFormed⟩

end Document

end TaggedUnion
