import TaggedUnion.Proofs.Coercion.Lookup
import TaggedUnion.Proofs.Schema.Evolution

/-!
# The order of declarations does not matter

The registry of a document is in the order in which its types are built, and that depends on the
order of the declarations. What each name stands for does not, and nothing else is asked of a
registry.

* `wellFormed_of_perm`: being well-formed is said of the declarations in any order.
* `get?_of_subset`: a name stands for the same type where more is declared.
* `union?_of_subset`: so does the name of a union.
* `build_of_perm`: two orders of one document make schemas that cannot be told apart.
-/

namespace TaggedUnion.Document

/-! ## Well-formed in any order -/

theorem wellFormed_of_perm {document document' : Document}
    (h : document.types.Perm document'.types) (hwf : document.WellFormed) :
    document'.WellFormed := by
  have hmem : ∀ {declaration}, declaration ∈ document'.types ↔ declaration ∈ document.types :=
    h.mem_iff.symm
  have hknows : ∀ {name}, document'.Knows name ↔ document.Knows name := by
    intro name
    simp only [Knows, hmem]
  have hlists : document'.ListsUnion = document.ListsUnion := by
    funext name listed
    simp only [ListsUnion, hmem]
  refine ⟨?_, ?_, ?_, ?_, ?_, ?_, ?_, ?_⟩
  · simpa only [hmem] using hwf.name
  · exact (h.map TypeDef.name).nodup_iff.mp hwf.distinct
  · simpa only [hmem] using hwf.notBuiltin
  · simpa only [hmem] using hwf.fields
  · simpa only [hmem, hknows] using hwf.fieldType
  · simpa only [hmem, hknows] using hwf.candidate
  · simpa only [hmem] using hwf.keys
  · rw [hlists]
    exact hwf.acyclic

theorem exists_build_of_perm {document document' : Document}
    (h : document.types.Perm document'.types) (hbuild : ∃ schema, document.build = .ok schema) :
    ∃ schema, document'.build = .ok schema := by
  obtain ⟨schema, hbuild⟩ := hbuild
  exact exists_build_of_wellFormed (wellFormed_of_perm h (wellFormed_of_build hbuild))

/-! ## What a name stands for -/

theorem Resolves.functional {schema : Schema} {names : List String} {types types' : List NamedType}
    (h : Resolves schema names types) (h' : Resolves schema names types') : types = types' := by
  induction h generalizing types' with
  | nil => exact (List.forall₂_nil_left_iff.mp h').symm
  | cons hget _ ih =>
    obtain ⟨type, others, hget', hothers, rfl⟩ := List.forall₂_cons_left_iff.mp h'
    rw [Option.some.inj (hget.symm.trans hget'), ih hothers]

theorem Grows.nodup_names {declared : List UnionDef} {schema schema' : Schema}
    (h : Grows declared schema schema') (hnodup : schema.registry.names.Nodup) :
    schema'.registry.names.Nodup := by
  induction h with
  | refl => exact hnodup
  | add _ _ _ _ hnew ih =>
    rw [names_withUnion]
    exact nodup_snoc.mpr ⟨ih, hnew⟩

/-- A union that is known by name was declared, and is registered. -/
theorem Grows.union? {declared : List UnionDef} {schema schema' : Schema}
    (h : Grows declared schema schema') (hunions : schema.unions = []) {name : String}
    {union : UnionType} (hunion : schema'.union? name = some union) :
    schema'.registry.get? name = some (.union union) ∧
      ∃ declaration ∈ declared, declaration.name = name := by
  induction h with
  | refl => simp [Schema.union?, hunions] at hunion
  | @add grown declaration types _ hmem _ _ hnew ih =>
    rw [union?_withUnion] at hunion
    split at hunion
    · rename_i hname
      obtain rfl := Option.some.inj hunion
      exact ⟨hname ▸ get?_withUnion_self _ hnew, declaration, hmem, hname⟩
    · obtain ⟨hget, hdeclared⟩ := ih hunion
      exact ⟨get?_withUnion hget, hdeclared⟩

section Build

variable {document document' : Document} {schema schema' : Schema}

theorem nodup_names_of_build (hbuild : document.build = .ok schema) :
    schema.registry.names.Nodup := by
  obtain ⟨types, unions, -, hnames, hgrows, -⟩ := grows_of_build hbuild
  exact hgrows.nodup_names hnames

/-- **A name stands for the same type where more is declared.** A union is added when its candidates
are registered, so they stand for the same before. -/
theorem get?_of_subset (hbuild : document.build = .ok schema)
    (hbuild' : document'.build = .ok schema')
    (hsub : ∀ declaration ∈ document.types, declaration ∈ document'.types) {name : String}
    {type : NamedType} (hget : schema.registry.get? name = some type) :
    schema'.registry.get? name = some type := by
  obtain ⟨types, unions, hcollects, -, hgrows, -⟩ := grows_of_build hbuild
  clear hbuild
  induction hgrows generalizing name type with
  | refl =>
    obtain ⟨hmem, rfl⟩ := Registry.get?_some hget
    rcases List.mem_append.mp hmem with hbuiltin | htype
    · obtain ⟨scalar, -, rfl⟩ := List.mem_map.mp hbuiltin
      exact get?_builtin_of_build hbuild' scalar
    · obtain ⟨declaration, hdeclaration, hmakes⟩ := hcollects.mem_types.mp htype
      rw [← hmakes.name_eq]
      exact get?_of_makesType hbuild' (hsub declaration hdeclaration) hmakes
  | @add grown declaration types _ hmem htypes _ _ ih =>
    rcases get?_withUnion_or hget with hold | rfl
    · exact ih hold
    · obtain ⟨-, rfl⟩ := Registry.get?_some hget
      obtain ⟨types', hbuilt'⟩ :=
        built_of_build hbuild' (hsub _ (hcollects.mem_unions.mp hmem))
      have htypes' : Resolves schema' declaration.inputTypes.names types :=
        htypes.imp fun _ _ => ih
      rw [htypes'.functional hbuilt'.resolves]
      exact hbuilt'.registered

/-- A union that is known by name is known where more is declared. -/
theorem union?_of_subset (hbuild : document.build = .ok schema)
    (hbuild' : document'.build = .ok schema')
    (hsub : ∀ declaration ∈ document.types, declaration ∈ document'.types) {name : String}
    {union : UnionType} (hunion : schema.union? name = some union) :
    schema'.union? name = some union := by
  obtain ⟨types, unions, hcollects, -, hgrows, -⟩ := grows_of_build hbuild
  obtain ⟨hget, declaration, hmem, rfl⟩ := hgrows.union? rfl hunion
  have hget' := get?_of_subset hbuild hbuild' hsub hget
  obtain ⟨types', hbuilt'⟩ := built_of_build hbuild' (hsub _ (hcollects.mem_unions.mp hmem))
  obtain rfl := NamedType.union.inj (Option.some.inj (hget'.symm.trans hbuilt'.registered))
  exact hbuilt'.known

/-- Types are in a registry if they are found under their names. -/
theorem mem_types_iff_get? (hbuild : document.build = .ok schema) {type : NamedType} :
    type ∈ schema.registry.types ↔ schema.registry.get? type.name = some type :=
  ⟨Registry.get?_name (nodup_names_of_build hbuild), fun hget => (Registry.get?_some hget).1⟩

/-- **The order of the declarations does not matter.** If one order of a document makes a schema,
every order does. The schemas have the same types, the same type under each name and the same union
under each name, and against them every union gives the same results and the same errors for all
runtime values and literals. -/
theorem build_of_perm (h : document.types.Perm document'.types) :
    ((∃ schema, document.build = .ok schema) ↔ ∃ schema', document'.build = .ok schema') ∧
    ∀ schema schema', document.build = .ok schema → document'.build = .ok schema' →
      schema.registry.types.Perm schema'.registry.types ∧
      (∀ name, schema.registry.get? name = schema'.registry.get? name) ∧
      (∀ name, schema.union? name = schema'.union? name) ∧
      ∀ union : UnionType,
        (∀ value, union.parseValue schema.registry value =
          union.parseValue schema'.registry value) ∧
        ∀ source node, union.parseLiteral schema.registry source node =
          union.parseLiteral schema'.registry source node := by
  refine ⟨⟨exists_build_of_perm h, exists_build_of_perm h.symm⟩, ?_⟩
  intro schema schema' hbuild hbuild'
  have hsub : ∀ declaration ∈ document.types, declaration ∈ document'.types :=
    fun _ => h.mem_iff.mp
  have hsub' : ∀ declaration ∈ document'.types, declaration ∈ document.types :=
    fun _ => h.mem_iff.mpr
  have hlookups : schema.registry.SameLookups schema'.registry := fun name =>
    Option.ext fun type =>
      ⟨get?_of_subset hbuild hbuild' hsub, get?_of_subset hbuild' hbuild hsub'⟩
  have hunions : ∀ name, schema.union? name = schema'.union? name := fun name =>
    Option.ext fun union =>
      ⟨union?_of_subset hbuild hbuild' hsub, union?_of_subset hbuild' hbuild hsub'⟩
  have htypes : schema.registry.types.Perm schema'.registry.types := by
    refine (List.perm_ext_iff_of_nodup (nodup_names_of_build hbuild).of_map
      (nodup_names_of_build hbuild').of_map).mpr fun type => ?_
    rw [mem_types_iff_get? hbuild, mem_types_iff_get? hbuild', hlookups type.name]
  exact ⟨htypes, hlookups, hunions, fun union =>
    ⟨parseValue_congr hlookups union, fun source => parseLiteral_congr hlookups source union⟩⟩

end Build

/-- The union of cats may be declared before the cats. -/
theorem build_of_perm_cat : ∃ schema union,
    Document.build ⟨catDocument.types.reverse⟩ = .ok schema ∧
      schema.union? "Pet" = some union ∧
        union.parseValue schema.registry redCat = .ok redCat := by
  have hperm : catDocument.types.Perm (Document.types ⟨catDocument.types.reverse⟩) :=
    (List.reverse_perm catDocument.types).symm
  obtain ⟨hexists, hsame⟩ := build_of_perm hperm
  obtain ⟨schema, hbuild⟩ := hexists.mp ⟨catSchema, build_catDocument⟩
  obtain ⟨-, -, hunions, hparse⟩ := hsame catSchema schema build_catDocument hbuild
  have hpet : ∃ union, catSchema.union? "Pet" = some union ∧
      union.parseValue catSchema.registry redCat = .ok redCat := by
    refine ⟨_, rfl, ?_⟩
    cbv
  obtain ⟨union, hunion, hcat⟩ := hpet
  exact ⟨schema, union, hbuild, (hunions "Pet").symm.trans hunion,
    ((hparse union).1 redCat).symm.trans hcat⟩

end TaggedUnion.Document
