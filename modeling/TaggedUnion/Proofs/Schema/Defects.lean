import Mathlib.Data.List.Chain
import TaggedUnion.Proofs.InputType.Reference
import TaggedUnion.Proofs.Schema.Declared

/-!
# What is wrong where no schema is made

A document that does not make a schema has the defect that the error names.

* `IsCycle`: a closed path that comes by nothing twice.
* `Document.Exhibits`: the defect that an error names, said of the document.
* `Path`: what is known of the unions being built. They are a path of candidates without repetition.
* `exhibits_of_ensure`, `exhibits_of_collect`, `exhibits_of_checkReferences`: the defects that the
  passes find.
* `exhibits_of_build_error`: the error of a document names one of its defects.
-/

namespace TaggedUnion

/-! ## Errors of a step -/

theorem Registry.add_eq_error {registry : Registry} {type : NamedType} {error : SchemaError}
    (h : registry.add type = .error error) :
    (¬Text.isName type.name ∧ error = .invalidName type.name) ∨
      type.name ∈ registry.names ∧ error = .duplicateType type.name := by
  rw [add_eq] at h
  split at h
  · rename_i hname
    cases h
    exact .inl ⟨by simpa using hname, rfl⟩
  · split at h
    · rename_i hcontains
      cases h
      exact .inr ⟨contains_iff.mp hcontains, rfl⟩
    · cases h

/-- A closed path, which comes by nothing twice before it ends where it began. -/
structure IsCycle {α : Type} (step : α → α → Prop) (nodes : List α) : Prop where
  two_le_length : 2 ≤ nodes.length
  closed : nodes.head? = nodes.getLast?
  distinct : nodes.dropLast.Nodup
  steps : nodes.IsChain step

namespace Document

/-! ## Defects -/

/-- A declared union of a given name has another name among its candidates. -/
def ListsName (document : Document) (name listed : String) : Prop :=
  ∃ declaration, .union declaration ∈ document.types ∧ declaration.name = name ∧
    listed ∈ declaration.inputTypes.names

/-- The document has the defect that an error names. -/
inductive Exhibits (document : Document) : SchemaError → Prop where
  /-- Declared unions list each other in a cycle. -/
  | unionCycle {names : List String} (hcycle : IsCycle document.ListsName names)
    (hdeclared : ∀ name ∈ names, ∃ declaration, .union declaration ∈ document.types ∧
      declaration.name = name) : Exhibits document (.unionCycle names)
  /-- A union lists a name that stands for nothing. -/
  | candidate {union name : String} (hlisted : document.ListsName union name)
    (hunknown : ¬document.Knows name) : Exhibits document (.unknownType name union)
  /-- The type of a field has a name that stands for nothing. -/
  | fieldType {declaration : ObjectDef} {field : String × FieldDef} {type : InputType}
    (hmem : .object declaration ∈ document.types) (hfield : field ∈ declaration.fields)
    (htype : InputType.parse field.2.typeText = .ok type)
    (hunknown : ¬document.Knows type.innermostName) :
    Exhibits document (.unknownType type.innermostName (declaration.name ++ "." ++ field.1))
  /-- A name is declared twice. -/
  | repeated {name : String} (htwice : 2 ≤ (document.types.map TypeDef.name).count name) :
    Exhibits document (.duplicateType name)
  /-- A declared name is that of a built-in scalar. -/
  | builtin {declaration : TypeDef} (hmem : declaration ∈ document.types) (scalar : Builtin)
    (hname : scalar.name = declaration.name) : Exhibits document (.duplicateType declaration.name)
  /-- An object has a field twice. -/
  | field {declaration : ObjectDef} {field : String} (hmem : .object declaration ∈ document.types)
    (htwice : 2 ≤ (declaration.fields.map Prod.fst).count field) :
    Exhibits document (.duplicateField declaration.name field)
  /-- A declared name does not obey the name rule. -/
  | name {declaration : TypeDef} (hmem : declaration ∈ document.types)
    (hname : ¬Text.isName declaration.name) : Exhibits document (.invalidName declaration.name)
  /-- The type of a field cannot be read. -/
  | typeText {declaration : ObjectDef} {field : String × FieldDef} {text : String}
    (hmem : .object declaration ∈ document.types) (hfield : field ∈ declaration.fields)
    (htype : InputType.parse field.2.typeText = .error (.invalidTypeRef text)) :
    Exhibits document (.invalidTypeRef text)
  /-- A union cannot be built from the types that it lists. -/
  | union {declaration : UnionDef} {types : List NamedType} {error : UnionError}
    (hmem : .union declaration ∈ document.types)
    (hnames : types.map NamedType.name = declaration.inputTypes.names)
    (hunion : unionType declaration types = .error error) : Exhibits document (.union error)

/-! ## Cycles of candidates -/

section Walk

variable {remaining : List UnionDef} {visiting : List String} {name : String} {schema : Schema}
  {error : SchemaError}

/-- What a walk to a name fails with: the cycle that it has come back to, a name that it does not
know, what the walks to the candidates fail with, or what the union itself fails with. -/
theorem ensure_eq_error (h : ensure remaining visiting name schema = .error error) :
    name ∉ schema.registry.names ∧
      ((name ∈ visiting ∧ error = .unionCycle (visiting.dropWhile (· ≠ name) ++ [name])) ∨
        name ∉ visiting ∧
          (((remaining.find? fun other => other.name = name) = none ∧
              error = .unknownType name (visiting.getLast?.getD "")) ∨
            ∃ declaration, (remaining.find? fun other => other.name = name) = some declaration ∧
              (ensureAll (others name remaining) (visiting ++ [name])
                  declaration.inputTypes.names schema = .error error ∨
                ∃ types candidates, ensureAll (others name remaining) (visiting ++ [name])
                    declaration.inputTypes.names schema = .ok (types, candidates) ∧
                  addDeclared declaration types candidates = .error error))) := by
  rw [ensure.eq_def] at h
  split at h
  · simp at h
  · rename_i hnone
    refine ⟨Registry.get?_eq_none_iff.mp hnone, ?_⟩
    split at h
    · rename_i hvisiting
      cases h
      exact .inl ⟨hvisiting, rfl⟩
    · rename_i hvisiting
      refine .inr ⟨hvisiting, ?_⟩
      split at h
      · rename_i hfind
        cases h
        exact .inl ⟨hfind, rfl⟩
      · rename_i declaration hfind
        refine .inr ⟨declaration, hfind, ?_⟩
        simp only [] at h
        split at h
        · rename_i hall
          cases h
          exact .inl hall
        · rename_i types candidates hall
          exact .inr ⟨types, candidates, hall, h⟩

/-- A walk to one name after the other fails at one of them. -/
theorem ensureAll_eq_error {names : List String}
    (h : ensureAll remaining visiting names schema = .error error) :
    ∃ name ∈ names, ∃ grown, Grows remaining schema grown ∧
      ensure remaining visiting name grown = .error error := by
  induction names generalizing schema with
  | nil =>
    rw [ensureAll.eq_def] at h
    cases h
  | cons name rest ih =>
    rw [ensureAll.eq_def] at h
    simp only [] at h
    split at h
    · rename_i hfirst
      cases h
      exact ⟨name, List.mem_cons_self, schema, .refl, hfirst⟩
    · rename_i type between hfirst
      split at h
      · rename_i hrest
        cases h
        obtain ⟨listed, hlisted, grown, hgrows, hfails⟩ := ih hrest
        exact ⟨listed, List.mem_cons_of_mem name hlisted, grown,
          (ensure_grows hfirst).1.trans hgrows, hfails⟩
      · simp at h

/-- A union of a new name whose candidates are registered fails to be added only where it fails to
be built. -/
theorem addDeclared_eq_error {declaration : UnionDef} {types : List NamedType}
    (hnames : types.map NamedType.name = declaration.inputTypes.names)
    (hnew : declaration.name ∉ schema.registry.names)
    (h : addDeclared declaration types schema = .error error) :
    ∃ cause, unionType declaration types = .error cause ∧ error = .union cause := by
  unfold addDeclared at h
  cases hunion : unionType declaration types with
  | error cause =>
    rw [hunion] at h
    cases h
    exact ⟨cause, rfl, rfl⟩
  | ok union =>
    obtain ⟨hname, -, -, rfl⟩ := (unionType_eq_ok_iff hnames).mp hunion
    have hadd : schema.addUnion (declaration.unionOf types) =
        .ok (withUnion schema (declaration.unionOf types)) :=
      addUnion_eq_ok_iff.mpr ⟨hname, hnew, rfl⟩
    rw [hunion] at h
    simp only [hadd] at h
    cases h

end Walk

/-- What is known when the walk comes to a name: the unions being built lead to it one by one, all
of them are declared and none comes twice, and the other declarations remain. -/
structure Path (document : Document) (declared remaining : List UnionDef) (visiting : List String)
    (name : String) : Prop where
  distinct : visiting.Nodup
  visited : ∀ visited ∈ visiting, ∃ declaration, .union declaration ∈ document.types ∧
    declaration.name = visited
  steps : (visiting ++ [name]).IsChain document.ListsName
  remains : ∀ declaration ∈ declared, declaration.name ∈ visiting ∨ declaration ∈ remaining
  sub : ∀ declaration ∈ remaining, declaration ∈ declared
  /-- The walk sets out to a declared union. -/
  start : visiting = [] → ∃ declaration ∈ declared, declaration.name = name

namespace Path

variable {document : Document} {declared remaining : List UnionDef} {visiting : List String}
  {name : String}

/-- The part of the path from a union back to it is a cycle. -/
theorem exhibits_cycle (h : Path document declared remaining visiting name)
    (hmem : name ∈ visiting) :
    document.Exhibits (.unionCycle (visiting.dropWhile (· ≠ name) ++ [name])) := by
  -- What comes before the name on the path only leads into the cycle.
  obtain ⟨before, after, rfl⟩ := List.append_of_mem hmem
  obtain ⟨-, hafter, hapart⟩ := List.nodup_append.mp h.distinct
  have hbefore : ∀ other ∈ before, other ≠ name := fun other hother =>
    hapart other hother name List.mem_cons_self
  have hdrop : (before ++ name :: after).dropWhile (· ≠ name) = name :: after := by
    rw [List.dropWhile_append_of_pos (by simpa using hbefore)]
    simp
  have hsteps : (name :: after ++ [name]).IsChain document.ListsName := by
    have hwhole := h.steps
    rw [List.append_assoc] at hwhole
    exact hwhole.right_of_append
  have hclosed : (name :: after ++ [name]).head? = (name :: after ++ [name]).getLast? := by
    rw [List.getLast?_concat]
    rfl
  rw [hdrop]
  refine .unionCycle ⟨by simp, hclosed, ?_, hsteps⟩ fun other hother => ?_
  · rwa [List.dropLast_concat]
  · rcases List.mem_append.mp hother with hold | hlast
    · exact h.visited other (List.mem_append_right _ hold)
    · exact List.mem_singleton.mp hlast ▸ h.visited name hmem

/-- The path leads to a name that is not declared through a union that lists it. -/
theorem lists_last (h : Path document declared remaining visiting name)
    (hnot : ¬∃ declaration ∈ declared, declaration.name = name) :
    document.ListsName (visiting.getLast?.getD "") name := by
  rcases List.eq_nil_or_concat visiting with rfl | ⟨before, last, rfl⟩
  · exact absurd (h.start rfl) hnot
  · have hstep := (List.isChain_append.mp h.steps).2.2 last (by simp) name (by simp)
    simpa using hstep

/-- The path goes on to a candidate. -/
theorem extend (h : Path document declared remaining visiting name) (hnew : name ∉ visiting)
    {declaration : UnionDef} (hmem : .union declaration ∈ document.types)
    (hname : declaration.name = name) {listed : String}
    (hlisted : listed ∈ declaration.inputTypes.names) :
    Path document declared (others name remaining) (visiting ++ [name]) listed where
  distinct := nodup_snoc.mpr ⟨h.distinct, hnew⟩
  visited := by
    intro visited hvisited
    rcases List.mem_append.mp hvisited with hold | hlast
    · exact h.visited visited hold
    · obtain rfl := List.mem_singleton.mp hlast
      exact ⟨declaration, hmem, hname⟩
  steps := by
    refine h.steps.append (.singleton listed) ?_
    simpa using ⟨declaration, hmem, hname, hlisted⟩
  remains := by
    intro other hother
    by_cases hsame : other.name = name
    · simp [hsame]
    · rcases h.remains other hother with hvisited | hrest
      · exact .inl (List.mem_append_left _ hvisited)
      · exact .inr (mem_others.mpr ⟨hrest, hsame⟩)
  sub := fun other hother => h.sub other (mem_others.mp hother).1
  start := by simp

end Path

section Passes

variable {document : Document} {types : List NamedType} {unions : List UnionDef}
  {error : SchemaError}

/-- **Where the walk over unions fails, the document has the defect.** The walks to candidates go on
along the path, with fewer declarations that remain. -/
theorem exhibits_of_ensure (hcollects : Collects document.types types unions)
    {remaining : List UnionDef} {visiting : List String} {name : String} {schema : Schema}
    (hpath : Path document unions remaining visiting name)
    (hgrown : Grows unions ⟨afterBuiltins types, []⟩ schema)
    (h : ensure remaining visiting name schema = .error error) : document.Exhibits error := by
  obtain ⟨hnew, ⟨hback, rfl⟩ | ⟨hnot, hforward⟩⟩ := ensure_eq_error h
  · exact hpath.exhibits_cycle hback
  · rcases hforward with ⟨hfind, rfl⟩ | ⟨declaration, hfind, hbelow⟩
    · have hundeclared : ¬∃ declaration ∈ unions, declaration.name = name := by
        rintro ⟨declaration, hmem, rfl⟩
        have hremains := (hpath.remains declaration hmem).resolve_left hnot
        simpa using List.find?_eq_none.mp hfind declaration hremains
      refine .candidate (hpath.lists_last hundeclared) fun hknows => ?_
      rcases hcollects.knows_iff.mp hknows with hregistered | hdeclared
      · exact hnew (hgrown.names_subset hregistered)
      · exact hundeclared hdeclared
    · have hlt := length_others_lt hfind
      obtain ⟨hremains, rfl⟩ := find?_name hfind
      have hmem := hcollects.mem_unions.mp (hpath.sub declaration hremains)
      rcases hbelow with hfails | ⟨built, candidates, hall, hadd⟩
      · obtain ⟨listed, hlisted, grown, hgrows, hfails⟩ := ensureAll_eq_error hfails
        -- No declaration is lost: the union has gone from those that remain to the path.
        have hpath' := hpath.extend hnot hmem rfl hlisted
        exact exhibits_of_ensure hcollects hpath' (hgrown.trans (hgrows.mono hpath'.sub)) hfails
      · obtain ⟨hgrows, hresolves⟩ := ensureAll_grows (fun h => ensure_grows h) hall
        obtain ⟨cause, hcause, rfl⟩ :=
          addDeclared_eq_error hresolves.map_name (hgrows.not_mem_names hnew) hadd
        exact .union hmem hresolves.map_name hcause
termination_by remaining.length

/-! ## The other passes -/

theorem two_le_count {α : Type} [DecidableEq α] {before after : List α} {a : α}
    (hmem : a ∈ before) : 2 ≤ (before ++ a :: after).count a := by
  have hbefore := List.count_pos_iff.mpr hmem
  rw [List.count_append, List.count_cons_self]
  omega

/-- A declared name that is already registered is that of a built-in scalar or is declared twice. -/
theorem exhibits_of_mem_names {declaration : TypeDef} (hmem : declaration ∈ document.types)
    (hname : declaration.name ∈ (afterBuiltins types).names)
    (htwice : declaration.name ∈ types.map NamedType.name →
      2 ≤ (document.types.map TypeDef.name).count declaration.name) :
    document.Exhibits (.duplicateType declaration.name) := by
  rw [names_afterBuiltins, List.mem_append, mem_names_builtins] at hname
  rcases hname with ⟨scalar, hscalar⟩ | htype
  · exact .builtin hmem scalar hscalar
  · exact .repeated (htwice htype)

theorem exhibits_of_objectType {declaration : ObjectDef}
    (hmem : .object declaration ∈ document.types) (h : objectType declaration = .error error) :
    document.Exhibits error := by
  obtain ⟨before, field, after, fields, hsplit, hbefore, hstep⟩ :=
    foldlM_eq_error.mp (map_eq_error.mp h)
  obtain ⟨-, made, hmade, rfl⟩ := (foldlM_addField_eq_ok_iff (by simp)).mp hbefore
  have hfield : field ∈ declaration.fields := by simp [hsplit]
  unfold objectType.addField at hstep
  split at hstep
  · rename_i hknown
    cases hstep
    refine .field hmem ?_
    rw [hsplit, List.map_append, List.map_cons]
    refine two_le_count ?_
    rw [(names_of_makesFields hmade).1]
    simpa using hknown
  · obtain ⟨text, rfl⟩ := InputType.parse_eq_error (map_eq_error.mp hstep)
    exact .typeText hmem hfield (map_eq_error.mp hstep)

/-- Where the first pass fails, the document has the defect. -/
theorem exhibits_of_collect
    (h : document.types.foldlM collect (Registry.builtins, []) = .error error) :
    document.Exhibits error := by
  obtain ⟨before, declaration, after, ⟨registry, unions⟩, hsplit, hbefore, hstep⟩ :=
    foldlM_eq_error.mp h
  obtain ⟨types, hcollects, rfl, -⟩ := (@collect_builtins_iff ⟨before⟩ _ _).mp hbefore
  have hmem : declaration ∈ document.types := by simp [hsplit]
  have htwice : declaration.name ∈ types.map NamedType.name ++ unions.map UnionDef.name →
      2 ≤ (document.types.map TypeDef.name).count declaration.name := by
    intro hname
    rw [hsplit, List.map_append, List.map_cons]
    exact two_le_count (hcollects.perm_names.mem_iff.mpr hname)
  have hadd : ∀ type, declaration.name = type.name →
      (afterBuiltins types).add type = .error error → document.Exhibits error := by
    intro type hname hfails
    rcases Registry.add_eq_error hfails with ⟨hinvalid, rfl⟩ | ⟨hregistered, rfl⟩
    · rw [← hname] at hinvalid ⊢
      exact .name hmem hinvalid
    · rw [← hname] at hregistered ⊢
      exact exhibits_of_mem_names hmem hregistered fun htype =>
        htwice (List.mem_append_left _ htype)
  cases declaration with
  | object declaration =>
    simp only [collect] at hstep
    split at hstep
    · rename_i hobject
      cases hstep
      exact exhibits_of_objectType hmem hobject
    · rename_i object hobject
      exact hadd _ (MakesType.object hobject).name_eq (map_eq_error.mp hstep)
  | enum declaration => exact hadd _ MakesType.enum.name_eq (map_eq_error.mp hstep)
  | union declaration =>
    simp only [collect] at hstep
    split at hstep
    · rename_i hknown
      cases hstep
      have hname : declaration.name ∈ unions.map UnionDef.name := by simpa using hknown
      exact .repeated (htwice (List.mem_append_right _ hname))
    · cases hstep

/-- Where the name of a union is registered already, the document has a name twice. -/
theorem exhibits_of_find? (hcollects : Collects document.types types unions)
    {declaration : UnionDef}
    (h : (unions.find? fun union => (afterBuiltins types).contains union.name) =
      some declaration) : document.Exhibits (.duplicateType declaration.name) := by
  have hmem := List.mem_of_find?_eq_some h
  have hregistered : declaration.name ∈ (afterBuiltins types).names :=
    Registry.contains_iff.mp (by simpa using List.find?_some h)
  refine exhibits_of_mem_names (hcollects.mem_unions.mp hmem) hregistered fun htype => ?_
  have htypes := List.count_pos_iff.mpr htype
  have hunions : 0 < (unions.map UnionDef.name).count declaration.name :=
    List.count_pos_iff.mpr (List.mem_map_of_mem hmem)
  rw [hcollects.perm_names.count_eq, List.count_append]
  exact Nat.add_le_add htypes hunions

/-- Where the last pass fails, the document has the defect. -/
theorem exhibits_of_checkReferences {registry : Registry}
    (hknows : ∀ name, document.Knows name ↔ name ∈ registry.names)
    (h : document.types.forM (checkReferences registry) = .error error) :
    document.Exhibits error := by
  obtain ⟨declaration, hmem, hfails⟩ := forM_eq_error h
  cases declaration with
  | object declaration =>
    obtain ⟨field, hfield, hfails⟩ := forM_eq_error hfails
    simp only [] at hfails
    split at hfails
    · rename_i htype
      cases hfails
      obtain ⟨text, rfl⟩ := InputType.parse_eq_error htype
      exact .typeText hmem hfield htype
    · rename_i type htype
      split at hfails
      · cases hfails
      · rename_i hunknown
        cases hfails
        refine .fieldType hmem hfield htype fun hknown => hunknown ?_
        exact Registry.contains_iff.mpr ((hknows _).mp hknown)
  | enum declaration => cases hfails
  | union declaration => cases hfails

end Passes

/-- **The error names a defect.** If a document does not make a schema, it has the defect that the
error names. A cycle is a closed path of declared unions, each listing the next, without repetition.
An unknown name is neither declared nor built in, and is referred to from the given place. A name
that is defined twice is declared twice or is that of a built-in scalar, and a field that is defined
twice is written twice in its object. -/
theorem exhibits_of_build_error {document : Document} {error : SchemaError}
    (h : document.build = .error error) : document.Exhibits error := by
  unfold build at h
  split at h
  · rename_i hcollect
    cases h
    exact exhibits_of_collect hcollect
  · rename_i registry unions hcollect
    obtain ⟨types, hcollects, rfl, -⟩ := collect_builtins_iff.mp hcollect
    split at h
    · rename_i declaration hfind
      cases h
      exact exhibits_of_find? hcollects hfind
    · split at h
      · rename_i hensure
        cases h
        obtain ⟨name, hname, grown, hgrows, hfails⟩ := ensureAll_eq_error hensure
        obtain ⟨declaration, hmem, rfl⟩ := List.mem_map.mp hname
        have hpath : Path document unions unions [] declaration.name :=
          ⟨.nil, by simp, .singleton _, fun _ h => .inr h, fun _ h => h,
            fun _ => ⟨declaration, hmem, rfl⟩⟩
        exact exhibits_of_ensure hcollects hpath hgrows hfails
      · rename_i built schema hensure
        exact exhibits_of_checkReferences
          (fun name => knows_iff_registered hcollects hensure) (map_eq_error.mp h)

/-- A union of `e` leads to the unions of `a` and `b`, which list each other. -/
def loopDocument : Document :=
  ⟨[.union ⟨"e", none, none, .byName ["a"]⟩,
    .union ⟨"a", none, none, .byName ["Int", "b"]⟩,
    .union ⟨"b", none, none, .byName ["a"]⟩]⟩

/-- The way into a cycle is not part of it. -/
theorem exhibits_of_build_error_loop :
    loopDocument.build = .error (.unionCycle ["a", "b", "a"]) ∧
      loopDocument.Exhibits (.unionCycle ["a", "b", "a"]) := by
  have hbuild : loopDocument.build = .error (.unionCycle ["a", "b", "a"]) := by cbv
  exact ⟨hbuild, exhibits_of_build_error hbuild⟩

end Document

end TaggedUnion
