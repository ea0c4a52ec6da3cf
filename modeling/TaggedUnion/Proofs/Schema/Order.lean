import Mathlib.Data.List.Nodup
import Mathlib.Logic.Relation
import TaggedUnion.Proofs.Schema.Collect
import TaggedUnion.Proofs.Union.Building

/-!
# The order in which unions are built

Each union is built after the unions that it lists, by a depth-first walk over the declarations. The
walk is described by what it does to the schema: it adds unions one by one, each when its candidates
are all registered.

* `Grows`: schemas that a schema can become in this way.
* `ensure_grows`, `ensureAll_grows`: whatever the walk comes back with, the schema has grown.
* `Grows.registered`: what is known of a union once it is registered. Its candidates come before it.
* `ensure_exists`, `ensureAll_exists`: without cycles, the walk comes back.
* `ensureAll_iff`: when all declared unions can be built.
-/

namespace TaggedUnion.Document

/-- The schema with one union more. -/
def withUnion (schema : Schema) (union : UnionType) : Schema :=
  { schema.setUnion union with registry := ⟨schema.registry.types ++ [.union union]⟩ }

@[simp] theorem names_withUnion {schema : Schema} {union : UnionType} :
    (withUnion schema union).registry.names = schema.registry.names ++ [union.name] := by
  simp [withUnion, Registry.names, NamedType.name]

theorem get?_withUnion {schema : Schema} {union : UnionType} {name : String} {type : NamedType}
    (h : schema.registry.get? name = some type) :
    (withUnion schema union).registry.get? name = some type :=
  Registry.get?_append h

theorem get?_withUnion_self {schema : Schema} (union : UnionType)
    (h : union.name ∉ schema.registry.names) :
    (withUnion schema union).registry.get? union.name = some (.union union) := by
  have hnone := Registry.get?_eq_none_iff.mpr h
  unfold Registry.get? withUnion at *
  rw [List.find?_append, hnone, Option.none_or]
  simp [NamedType.name]

theorem get?_withUnion_or {schema : Schema} {union : UnionType} {name : String} {type : NamedType}
    (h : (withUnion schema union).registry.get? name = some type) :
    schema.registry.get? name = some type ∨ type = .union union := by
  cases hold : schema.registry.get? name with
  | some old => exact .inl ((get?_withUnion hold).symm.trans h)
  | none =>
    unfold Registry.get? withUnion at *
    rw [List.find?_append, hold, Option.none_or, List.find?_singleton] at h
    split at h <;> simp_all

/-- The types are the ones that the names stand for. -/
def Resolves (schema : Schema) : List String → List NamedType → Prop :=
  List.Forall₂ fun name type => schema.registry.get? name = some type

theorem Resolves.map_name {schema : Schema} {names : List String} {types : List NamedType}
    (h : Resolves schema names types) : types.map NamedType.name = names := by
  induction h with
  | nil => rfl
  | cons hget _ ih => rw [List.map_cons, ih, (Registry.get?_some hget).2]

theorem Resolves.get?_name {schema : Schema} {names : List String} {types : List NamedType}
    (h : Resolves schema names types) :
    ∀ type ∈ types, schema.registry.get? type.name = some type := by
  induction h with
  | nil => simp
  | cons hget _ ih =>
    obtain ⟨-, rfl⟩ := Registry.get?_some hget
    exact List.forall_mem_cons.mpr ⟨hget, ih⟩

theorem Resolves.exists_name {schema : Schema} {names : List String} {types : List NamedType}
    (h : Resolves schema names types) {type : NamedType} (htype : type ∈ types) :
    ∃ name ∈ names, schema.registry.get? name = some type :=
  ⟨type.name, h.map_name ▸ List.mem_map_of_mem htype, h.get?_name type htype⟩

theorem Resolves.exists_type {schema : Schema} {names : List String} {types : List NamedType}
    (h : Resolves schema names types) {name : String} (hname : name ∈ names) :
    ∃ type ∈ types, schema.registry.get? name = some type := by
  rw [← h.map_name] at hname
  obtain ⟨type, htype, rfl⟩ := List.mem_map.mp hname
  exact ⟨type, htype, h.get?_name type htype⟩

theorem Resolves.mem_names {schema : Schema} {names : List String} {types : List NamedType}
    (h : Resolves schema names types) {name : String} (hname : name ∈ names) :
    name ∈ schema.registry.names := by
  obtain ⟨type, -, hget⟩ := h.exists_type hname
  obtain ⟨hmem, rfl⟩ := Registry.get?_some hget
  exact List.mem_map_of_mem hmem

theorem addUnion_eq_ok_iff {schema schema' : Schema} {union : UnionType} :
    schema.addUnion union = .ok schema' ↔
      Text.isName union.name ∧ union.name ∉ schema.registry.names ∧
        schema' = withUnion schema union := by
  unfold Schema.addUnion
  simp only [map_eq_ok, Registry.add_eq_ok_iff]
  constructor
  · rintro ⟨_, ⟨hname, hnew, rfl⟩, rfl⟩
    exact ⟨hname, hnew, rfl⟩
  · rintro ⟨hname, hnew, rfl⟩
    exact ⟨_, ⟨hname, hnew, rfl⟩, rfl⟩

/-- What it takes to build a declared union, its candidates being registered. -/
structure Buildable (declaration : UnionDef) (types : List NamedType) : Prop where
  name : Text.isName declaration.name
  keys : declaration.inputTypes.keys.Nodup
  kinds : ∀ type ∈ types, type.kind ≠ .enum

theorem addDeclared_eq_ok_iff {declaration : UnionDef} {types : List NamedType}
    {schema schema' : Schema} {type : NamedType}
    (hnames : types.map NamedType.name = declaration.inputTypes.names) :
    addDeclared declaration types schema = .ok (type, schema') ↔
      Buildable declaration types ∧ declaration.name ∉ schema.registry.names ∧
        type = .union (declaration.unionOf types) ∧
          schema' = withUnion schema (declaration.unionOf types) := by
  have hadd : addDeclared declaration types schema = .ok (type, schema') ↔
      ∃ union, unionType declaration types = .ok union ∧ schema.addUnion union = .ok schema' ∧
        type = .union union := by
    unfold addDeclared
    cases unionType declaration types with
    | error error => simp
    | ok union =>
      constructor
      · intro h
        obtain ⟨_, hunion, hpair⟩ := map_eq_ok.mp h
        cases hpair
        exact ⟨union, rfl, hunion, rfl⟩
      · rintro ⟨_, ⟨⟩, hunion, rfl⟩
        exact map_eq_ok.mpr ⟨schema', hunion, rfl⟩
  simp only [hadd, unionType_eq_ok_iff hnames, addUnion_eq_ok_iff]
  constructor
  · rintro ⟨_, ⟨hname, hkeys, hkinds, rfl⟩, ⟨-, hnew, rfl⟩, rfl⟩
    exact ⟨⟨hname, hkeys, hkinds⟩, hnew, rfl, rfl⟩
  · rintro ⟨⟨hname, hkeys, hkinds⟩, hnew, rfl, rfl⟩
    exact ⟨_, ⟨hname, hkeys, hkinds, rfl⟩, ⟨hname, hnew, rfl⟩, rfl⟩

/-! ## Growth -/

/-- The schemas that a schema becomes by adding declared unions, each when all its candidates are
registered and its name is not. -/
inductive Grows (declared : List UnionDef) (schema : Schema) : Schema → Prop where
  | refl : Grows declared schema schema
  | add {grown : Schema} {declaration : UnionDef} {types : List NamedType}
    (h : Grows declared schema grown) (hmem : declaration ∈ declared)
    (htypes : Resolves grown declaration.inputTypes.names types)
    (hbuild : Buildable declaration types) (hnew : declaration.name ∉ grown.registry.names) :
    Grows declared schema (withUnion grown (declaration.unionOf types))

namespace Grows

variable {declared : List UnionDef} {schema schema' : Schema}

theorem trans {schema'' : Schema} (h : Grows declared schema schema')
    (h' : Grows declared schema' schema'') : Grows declared schema schema'' := by
  induction h' with
  | refl => exact h
  | add _ hmem htypes hbuild hnew ih => exact .add ih hmem htypes hbuild hnew

theorem mono {more : List UnionDef} (hsub : ∀ declaration ∈ declared, declaration ∈ more)
    (h : Grows declared schema schema') : Grows more schema schema' := by
  induction h with
  | refl => exact .refl
  | add _ hmem htypes hbuild hnew ih => exact .add ih (hsub _ hmem) htypes hbuild hnew

/-- What is registered stays registered. -/
theorem get? (h : Grows declared schema schema') {name : String} {type : NamedType}
    (hget : schema.registry.get? name = some type) :
    schema'.registry.get? name = some type := by
  induction h with
  | refl => exact hget
  | add _ _ _ _ _ ih => exact get?_withUnion ih

theorem names_subset (h : Grows declared schema schema') {name : String}
    (hname : name ∈ schema.registry.names) : name ∈ schema'.registry.names := by
  induction h with
  | refl => exact hname
  | add _ _ _ _ _ ih =>
    rw [names_withUnion]
    exact List.mem_append_left _ ih

/-- Only declared unions are added. -/
theorem mem_names (h : Grows declared schema schema') {name : String} :
    name ∈ schema'.registry.names →
      name ∈ schema.registry.names ∨ ∃ declaration ∈ declared, declaration.name = name := by
  induction h with
  | refl => exact .inl
  | @add grown declaration types _ hmem _ _ _ ih =>
    rw [names_withUnion, List.mem_append, List.mem_singleton]
    rintro (hname | rfl)
    · exact ih hname
    · exact .inr ⟨declaration, hmem, rfl⟩

/-- Only unions are added. -/
theorem get?_or_kind (h : Grows declared schema schema') {name : String} {type : NamedType}
    (hget : schema'.registry.get? name = some type) :
    schema.registry.get? name = some type ∨ type.kind ≠ .enum := by
  induction h with
  | refl => exact .inl hget
  | @add grown declaration types _ _ _ _ _ ih =>
    rcases get?_withUnion_or hget with hget | rfl
    · exact ih hget
    · exact .inr (by simp [NamedType.kind])

/-- A union that is registered was built from candidates that are registered before it. -/
theorem registered (h : Grows declared schema schema')
    (hdistinct : (declared.map UnionDef.name).Nodup)
    (hdisjoint : ∀ declaration ∈ declared, declaration.name ∉ schema.registry.names)
    {declaration : UnionDef} (hmem : declaration ∈ declared) :
    declaration.name ∈ schema'.registry.names →
      ∃ types, Resolves schema' declaration.inputTypes.names types ∧ Buildable declaration types ∧
        ∀ name ∈ declaration.inputTypes.names,
          schema'.registry.names.idxOf name < schema'.registry.names.idxOf declaration.name := by
  induction h with
  | refl => exact fun hname => absurd hname (hdisjoint declaration hmem)
  | @add grown last types _ hlast htypes hbuild hnew ih =>
    rw [names_withUnion, List.mem_append, List.mem_singleton]
    -- Names keep their places when another one is put behind them.
    have hplace : ∀ {name : String}, name ∈ grown.registry.names →
        (grown.registry.names ++ [last.name]).idxOf name = grown.registry.names.idxOf name :=
      fun hname => List.idxOf_append_of_mem hname
    rintro (hname | hname)
    · obtain ⟨types', htypes', hbuild', hbefore⟩ := ih hname
      refine ⟨types', htypes'.imp fun _ _ => get?_withUnion, hbuild', fun name hlisted => ?_⟩
      change (_ ++ [last.name]).idxOf name < (_ ++ [last.name]).idxOf declaration.name
      rw [hplace (htypes'.mem_names hlisted), hplace hname]
      exact hbefore name hlisted
    · obtain rfl : declaration = last := List.inj_on_of_nodup_map hdistinct hmem hlast hname
      refine ⟨types, htypes.imp fun _ _ => get?_withUnion, hbuild, fun name hlisted => ?_⟩
      have hbefore := List.idxOf_lt_length_of_mem (htypes.mem_names hlisted)
      change (_ ++ [declaration.name]).idxOf name < (_ ++ [declaration.name]).idxOf declaration.name
      rw [hplace (htypes.mem_names hlisted), List.idxOf_append_of_notMem hnew]
      omega

end Grows

/-! ## The walk -/

section Steps

variable {remaining : List UnionDef} {visiting : List String} {name : String}
  {schema schema' : Schema} {type : NamedType}

theorem find?_name {unions : List UnionDef} {declaration : UnionDef}
    (h : (unions.find? fun other => other.name = name) = some declaration) :
    declaration ∈ unions ∧ declaration.name = name :=
  ⟨List.mem_of_find?_eq_some h, by simpa using List.find?_some h⟩

/-- A walk to a name comes back with the type that is registered, or builds a union after its
candidates. -/
theorem ensure_eq_ok (h : ensure remaining visiting name schema = .ok (type, schema')) :
    (schema.registry.get? name = some type ∧ schema' = schema) ∨
      name ∉ schema.registry.names ∧ ∃ declaration,
        (remaining.find? fun other => other.name = name) = some declaration ∧
          ∃ types candidates, ensureAll (others name remaining) (visiting ++ [name])
              declaration.inputTypes.names schema = .ok (types, candidates) ∧
            addDeclared declaration types candidates = .ok (type, schema') := by
  rw [ensure.eq_def] at h
  split at h
  · rename_i hget
    cases h
    exact .inl ⟨hget, rfl⟩
  · rename_i hnone
    refine .inr ⟨Registry.get?_eq_none_iff.mp hnone, ?_⟩
    split at h
    · simp at h
    · split at h
      · simp at h
      · rename_i declaration hfind
        simp only [] at h
        split at h
        · simp at h
        · rename_i types candidates hall
          exact ⟨declaration, hfind, types, candidates, hall, h⟩

/-- A walk to one name after the other comes back if each walk does. -/
theorem ensureAll_cons_eq_ok {rest : List String} {types : List NamedType}
    (h : ensureAll remaining visiting (name :: rest) schema = .ok (types, schema')) :
    ∃ type between others, ensure remaining visiting name schema = .ok (type, between) ∧
      ensureAll remaining visiting rest between = .ok (others, schema') ∧
        types = type :: others := by
  rw [ensureAll.eq_def] at h
  simp only [] at h
  split at h
  · simp at h
  · rename_i type between hfirst
    split at h
    · simp at h
    · rename_i others _ hrest
      cases h
      exact ⟨type, between, others, hfirst, hrest, rfl⟩

theorem ensureAll_nil_eq_ok {types : List NamedType}
    (h : ensureAll remaining visiting [] schema = .ok (types, schema')) :
    types = [] ∧ schema' = schema := by
  rw [ensureAll.eq_def] at h
  cases h
  exact ⟨rfl, rfl⟩

end Steps

theorem ensureAll_grows {remaining : List UnionDef} {visiting : List String}
    {declared : List UnionDef}
    (hensure : ∀ {name : String} {schema schema' : Schema} {type : NamedType},
      ensure remaining visiting name schema = .ok (type, schema') →
        Grows declared schema schema' ∧ schema'.registry.get? name = some type)
    {names : List String} {schema schema' : Schema} {types : List NamedType}
    (h : ensureAll remaining visiting names schema = .ok (types, schema')) :
    Grows declared schema schema' ∧ Resolves schema' names types := by
  induction names generalizing schema types with
  | nil =>
    obtain ⟨rfl, rfl⟩ := ensureAll_nil_eq_ok h
    exact ⟨.refl, .nil⟩
  | cons name rest ih =>
    obtain ⟨type, between, others, hfirst, hrest, rfl⟩ := ensureAll_cons_eq_ok h
    obtain ⟨hgrows, hget⟩ := hensure hfirst
    obtain ⟨hgrows', hresolves⟩ := ih hrest
    exact ⟨hgrows.trans hgrows', .cons (hgrows'.get? hget) hresolves⟩

theorem mem_others {name : String} {declaration : UnionDef} {unions : List UnionDef} :
    declaration ∈ others name unions ↔ declaration ∈ unions ∧ declaration.name ≠ name := by
  simp [others]

/-- A union is not registered while others are built. -/
theorem Grows.not_mem_names {remaining : List UnionDef} {name : String} {schema schema' : Schema}
    (h : Grows (others name remaining) schema schema') (hnew : name ∉ schema.registry.names) :
    name ∉ schema'.registry.names := by
  intro hregistered
  rcases h.mem_names hregistered with hold | ⟨other, hother, hsame⟩
  · exact hnew hold
  · exact (mem_others.mp hother).2 hsame

/-- Whatever a walk comes back with, the schema has grown by unions that remained, and the type is
registered. -/
theorem ensure_grows {remaining : List UnionDef} {visiting : List String} {name : String}
    {schema schema' : Schema} {type : NamedType}
    (h : ensure remaining visiting name schema = .ok (type, schema')) :
    Grows remaining schema schema' ∧ schema'.registry.get? name = some type := by
  rcases ensure_eq_ok h with
    ⟨hget, rfl⟩ | ⟨-, declaration, hfind, types, candidates, hall, hadd⟩
  · exact ⟨.refl, hget⟩
  · have hlt := length_others_lt hfind
    obtain ⟨hmem, rfl⟩ := find?_name hfind
    obtain ⟨hgrows, hresolves⟩ := ensureAll_grows (fun h => ensure_grows h) hall
    obtain ⟨hbuild, hnew, rfl, rfl⟩ := (addDeclared_eq_ok_iff hresolves.map_name).mp hadd
    have hgrows := hgrows.mono fun other hother => (mem_others.mp hother).1
    exact ⟨.add hgrows hmem hresolves hbuild hnew,
      get?_withUnion_self (declaration.unionOf types) hnew⟩
termination_by remaining.length

/-! ## Cycles -/

/-- A union of the declarations lists another one as a candidate. -/
def Lists (declared : List UnionDef) (name listed : String) : Prop :=
  ∃ declaration ∈ declared, declaration.name = name ∧ listed ∈ declaration.inputTypes.names ∧
    ∃ other ∈ declared, other.name = listed

/-- What it takes to build all declared unions, given the types that are registered before. -/
structure UnionsBuildable (known : Registry) (declared : List UnionDef) : Prop where
  name : ∀ declaration ∈ declared, Text.isName declaration.name
  keys : ∀ declaration ∈ declared, declaration.inputTypes.keys.Nodup
  /-- A candidate is a registered type or a declared union. -/
  candidate : ∀ declaration ∈ declared, ∀ name ∈ declaration.inputTypes.names,
    name ∈ known.names ∨ ∃ other ∈ declared, other.name = name
  kind : ∀ declaration ∈ declared, ∀ name ∈ declaration.inputTypes.names, ∀ type,
    known.get? name = some type → type.kind ≠ .enum
  acyclic : ∀ name, ¬Relation.TransGen (Lists declared) name name

section Walk

variable {declared : List UnionDef} {known : Registry}

/-- A declared union can be built as soon as its candidates are registered. -/
theorem UnionsBuildable.buildable (h : UnionsBuildable known declared) {schema : Schema}
    (hgrown : Grows declared ⟨known, []⟩ schema) {declaration : UnionDef}
    (hmem : declaration ∈ declared) {types : List NamedType}
    (htypes : Resolves schema declaration.inputTypes.names types) :
    Buildable declaration types := by
  refine ⟨h.name declaration hmem, h.keys declaration hmem, fun type htype => ?_⟩
  obtain ⟨name, hlisted, hget⟩ := htypes.exists_name htype
  rcases hgrown.get?_or_kind hget with hknown | hkind
  · exact h.kind declaration hmem name hlisted type hknown
  · exact hkind

theorem ensureAll_exists {remaining : List UnionDef} {visiting names : List String}
    {schema : Schema} (hsub : ∀ declaration ∈ remaining, declaration ∈ declared)
    (hensure : ∀ name ∈ names, ∀ grown, Grows declared ⟨known, []⟩ grown →
      ∃ result, ensure remaining visiting name grown = .ok result)
    (hgrown : Grows declared ⟨known, []⟩ schema) :
    ∃ result, ensureAll remaining visiting names schema = .ok result := by
  induction names generalizing schema with
  | nil =>
    rw [ensureAll.eq_def]
    exact ⟨_, rfl⟩
  | cons name rest ih =>
    obtain ⟨hfirst, hrest⟩ := List.forall_mem_cons.mp hensure
    obtain ⟨⟨type, schema₁⟩, hname⟩ := hfirst schema hgrown
    have hgrown' := hgrown.trans ((ensure_grows hname).1.mono hsub)
    obtain ⟨⟨types, schema₂⟩, hnames⟩ := ih hrest hgrown'
    rw [ensureAll.eq_def]
    simp [hname, hnames]

/-- **The walk comes back.** If all declared unions can be built, the walk to any known name ends
with a type. Each union being visited leads to the name, so coming back to one would be a cycle. -/
theorem ensure_exists (hbuildable : UnionsBuildable known declared) {remaining : List UnionDef}
    {visiting : List String} {name : String} {schema : Schema}
    (hsub : ∀ declaration ∈ remaining, declaration ∈ declared)
    (hremaining : ∀ declaration ∈ declared, declaration.name ∈ visiting ∨ declaration ∈ remaining)
    (hvisiting : ∀ visited ∈ visiting, (∃ declaration ∈ declared, declaration.name = name) →
      Relation.TransGen (Lists declared) visited name)
    (hname : name ∈ known.names ∨ ∃ declaration ∈ declared, declaration.name = name)
    (hgrown : Grows declared ⟨known, []⟩ schema) :
    ∃ result, ensure remaining visiting name schema = .ok result := by
  rw [ensure.eq_def]
  cases hget : schema.registry.get? name with
  | some type => exact ⟨_, rfl⟩
  | none =>
    have hnew : name ∉ schema.registry.names := Registry.get?_eq_none_iff.mp hget
    have hdeclared : ∃ declaration ∈ declared, declaration.name = name :=
      hname.resolve_left fun hknown => hnew (hgrown.names_subset hknown)
    have hnot : name ∉ visiting := fun hmem =>
      hbuildable.acyclic name (hvisiting name hmem hdeclared)
    simp only [hnot, ↓reduceIte]
    split
    · rename_i hfind
      obtain ⟨declaration, hmem, rfl⟩ := hdeclared
      have hfound := List.find?_eq_none.mp hfind declaration
        ((hremaining declaration hmem).resolve_left hnot)
      simp at hfound
    · rename_i declaration hfind
      have hlt := length_others_lt hfind
      obtain rfl : declaration.name = name := by simpa using List.find?_some hfind
      have hmem : declaration ∈ declared := hsub _ (List.mem_of_find?_eq_some hfind)
      have hsub' : ∀ other ∈ others declaration.name remaining, other ∈ declared :=
        fun other hother => hsub other (mem_others.mp hother).1
      have hcandidates : ∃ result, ensureAll (others declaration.name remaining)
          (visiting ++ [declaration.name]) declaration.inputTypes.names schema = .ok result := by
        refine ensureAll_exists hsub' (fun candidate hlisted grown hgrown' => ?_) hgrown
        refine ensure_exists hbuildable hsub' (fun other hother => ?_)
          (fun visited hvisited hother => ?_)
          (hbuildable.candidate declaration hmem candidate hlisted) hgrown'
        · by_cases hsame : other.name = declaration.name
          · simp [hsame]
          · rcases hremaining other hother with hvisited | hrest
            · exact .inl (List.mem_append_left _ hvisited)
            · exact .inr (mem_others.mpr ⟨hrest, hsame⟩)
        · have hstep : Lists declared declaration.name candidate :=
            ⟨declaration, hmem, rfl, hlisted, hother⟩
          rcases List.mem_append.mp hvisited with hold | hself
          · exact (hvisiting visited hold hdeclared).tail hstep
          · obtain rfl := List.mem_singleton.mp hself
            exact .single hstep
      obtain ⟨⟨types, schema'⟩, hall⟩ := hcandidates
      obtain ⟨hgrows, hresolves⟩ := ensureAll_grows (fun h => ensure_grows h) hall
      have hbuild := hbuildable.buildable (hgrown.trans (hgrows.mono hsub')) hmem hresolves
      have hadd := (addDeclared_eq_ok_iff hresolves.map_name).mpr
        ⟨hbuild, hgrows.not_mem_names hnew, rfl, rfl⟩
      simp only [hall, hadd]
      exact ⟨_, rfl⟩
termination_by remaining.length

/-- Along a path of candidates that are all registered, places in the registry get smaller. -/
theorem Grows.idxOf_lt_of_path {schema schema' : Schema} (h : Grows declared schema schema')
    (hdistinct : (declared.map UnionDef.name).Nodup)
    (hdisjoint : ∀ declaration ∈ declared, declaration.name ∉ schema.registry.names)
    (hall : ∀ declaration ∈ declared, declaration.name ∈ schema'.registry.names)
    {name listed : String} (hpath : Relation.TransGen (Lists declared) name listed) :
    schema'.registry.names.idxOf listed < schema'.registry.names.idxOf name := by
  have hstep : ∀ {name listed}, Lists declared name listed →
      schema'.registry.names.idxOf listed < schema'.registry.names.idxOf name := by
    rintro _ listed ⟨declaration, hmem, rfl, hlisted, -⟩
    obtain ⟨_, -, -, hbefore⟩ := h.registered hdistinct hdisjoint hmem (hall declaration hmem)
    exact hbefore listed hlisted
  induction hpath with
  | single hlast => exact hstep hlast
  | tail _ hlast ih => exact Nat.lt_trans (hstep hlast) ih

/-- If the walk over all declared unions comes back, they can be built. -/
theorem unionsBuildable_of_ensureAll (hdistinct : (declared.map UnionDef.name).Nodup)
    (hdisjoint : ∀ declaration ∈ declared, declaration.name ∉ known.names)
    {types : List NamedType} {schema : Schema}
    (h : ensureAll declared [] (declared.map UnionDef.name) ⟨known, []⟩ = .ok (types, schema)) :
    UnionsBuildable known declared := by
  obtain ⟨hgrows, hresolves⟩ := ensureAll_grows (fun h => ensure_grows h) h
  have hall : ∀ declaration ∈ declared, declaration.name ∈ schema.registry.names :=
    fun declaration hmem => hresolves.mem_names (List.mem_map_of_mem hmem)
  have hregistered : ∀ declaration ∈ declared, ∃ types,
      Resolves schema declaration.inputTypes.names types ∧ Buildable declaration types := by
    intro declaration hmem
    obtain ⟨types, hcandidates, hbuild, -⟩ :=
      hgrows.registered hdistinct hdisjoint hmem (hall declaration hmem)
    exact ⟨types, hcandidates, hbuild⟩
  refine ⟨fun declaration hmem => ?_, fun declaration hmem => ?_,
    fun declaration hmem name hlisted => ?_,
    fun declaration hmem name hlisted type hget => ?_, fun name hcycle => ?_⟩
  · obtain ⟨_, -, hbuild⟩ := hregistered declaration hmem
    exact hbuild.name
  · obtain ⟨_, -, hbuild⟩ := hregistered declaration hmem
    exact hbuild.keys
  · obtain ⟨_, hcandidates, -⟩ := hregistered declaration hmem
    exact hgrows.mem_names (hcandidates.mem_names hlisted)
  · obtain ⟨candidates, hcandidates, hbuild⟩ := hregistered declaration hmem
    obtain ⟨candidate, hcandidate, hfound⟩ := hcandidates.exists_type hlisted
    have hsame := (hgrows.get? hget).symm.trans hfound
    cases hsame
    exact hbuild.kinds type hcandidate
  · exact Nat.lt_irrefl _ (hgrows.idxOf_lt_of_path hdistinct hdisjoint hall hcycle)

/-- **When all declared unions can be built.** The walk over all of them comes back with types
exactly if each is buildable and none leads back to itself. -/
theorem ensureAll_iff (hdistinct : (declared.map UnionDef.name).Nodup)
    (hdisjoint : ∀ declaration ∈ declared, declaration.name ∉ known.names) :
    (∃ result, ensureAll declared [] (declared.map UnionDef.name) ⟨known, []⟩ = .ok result) ↔
      UnionsBuildable known declared := by
  constructor
  · rintro ⟨_, h⟩
    exact unionsBuildable_of_ensureAll hdistinct hdisjoint h
  · intro hbuildable
    refine ensureAll_exists (fun _ h => h) (fun name hname grown hgrown => ?_) .refl
    obtain ⟨declaration, hmem, rfl⟩ := List.mem_map.mp hname
    exact ensure_exists hbuildable (fun _ h => h) (fun _ h => .inr h) (by simp)
      (.inr ⟨declaration, hmem, rfl⟩) hgrown

end Walk

end TaggedUnion.Document
