import Mathlib.Data.List.Forall2
import TaggedUnion.Outcome
import TaggedUnion.Schema.Build

/-!
# What a document declares

The first pass over a document registers objects and enums and keeps unions for later.

* `Registry.names`: the names under which types are registered, each of them once.
* `exists_objectType_iff`: the declarations that make an object type.
* `Document.Collects`: the types and unions that declarations make.
* `foldlM_collect_eq_ok_iff`: when the pass goes through, and what it leaves.
-/

namespace TaggedUnion

/-! ## Registries -/

/-- The names of the registered types in order. -/
def Registry.names (registry : Registry) : List String := registry.types.map NamedType.name

namespace Registry

variable {registry registry' : Registry} {name : String} {type : NamedType}

theorem get?_eq_none_iff : registry.get? name = none ↔ name ∉ registry.names := by
  simp [get?, names]

theorem contains_iff : registry.contains name ↔ name ∈ registry.names := by
  rw [contains, Option.isSome_iff_ne_none, ne_eq, get?_eq_none_iff, not_not]

theorem get?_some (h : registry.get? name = some type) :
    type ∈ registry.types ∧ type.name = name :=
  ⟨List.mem_of_find?_eq_some h, by simpa using List.find?_some h⟩

/-- Where no name is taken twice, a type is found under its own name. -/
theorem get?_name (hnodup : registry.names.Nodup) (hmem : type ∈ registry.types) :
    registry.get? type.name = some type := by
  unfold get? names at *
  generalize registry.types = types at *
  induction types with
  | nil => simp at hmem
  | cons other rest ih =>
    rw [List.map_cons, List.nodup_cons] at hnodup
    rcases List.mem_cons.mp hmem with rfl | hrest
    · simp
    · have hname : other.name ≠ type.name := fun h => hnodup.1 (h ▸ List.mem_map_of_mem hrest)
      rw [List.find?_cons_of_neg (by simpa using hname)]
      exact ih hnodup.2 hrest

/-- A type that is found stays found when others are registered behind it. -/
theorem get?_append {types : List NamedType} (h : registry.get? name = some type) :
    (Registry.mk (registry.types ++ types)).get? name = some type := by
  unfold get? at *
  rw [List.find?_append, h, Option.some_or]

/-- A call has two reasons to be refused, and then has not changed the registry. -/
theorem run_addInPlace (type : NamedType) (registry : Registry) :
    (addInPlace type).run.run registry =
      if !Text.isName type.name then (.error (.invalidName type.name), registry)
      else if registry.contains type.name then (.error (.duplicateType type.name), registry)
      else (.ok (), ⟨registry.types ++ [type]⟩) := by
  unfold addInPlace
  cases Text.isName type.name with
  | false => rfl
  | true =>
    change ((if registry.contains type.name then throw (.duplicateType type.name)
      else modify fun registry => ⟨registry.types ++ [type]⟩ :
        ExceptT SchemaError (StateM Registry) Unit).run.run registry) = _
    cases registry.contains type.name <;> rfl

theorem add_eq (type : NamedType) (registry : Registry) :
    registry.add type =
      if !Text.isName type.name then .error (.invalidName type.name)
      else if registry.contains type.name then .error (.duplicateType type.name)
      else .ok ⟨registry.types ++ [type]⟩ := by
  simp only [add, outcome, run_addInPlace]
  split
  · rfl
  · split <;> rfl

theorem add_eq_ok_iff : registry.add type = .ok registry' ↔
    Text.isName type.name ∧ type.name ∉ registry.names ∧
      registry' = ⟨registry.types ++ [type]⟩ := by
  rw [add_eq]
  cases hname : Text.isName type.name with
  | false => simp
  | true =>
    by_cases hcontains : registry.contains type.name
    · simp [hcontains, contains_iff.mp hcontains]
    · have hnew : type.name ∉ registry.names := mt contains_iff.mpr hcontains
      simp [hcontains, hnew, eq_comm]

end Registry

/-! ## Object types -/

namespace Document

/-- The field that a declaration makes. -/
def MakesField (declared : String × FieldDef) (field : Field) : Prop :=
  InputType.parse declared.2.typeText = .ok field.type ∧ field.name = declared.1 ∧
    field.description = declared.2.description ∧ field.default? = declared.2.default?

theorem addField_eq_ok_iff {declaration : ObjectDef} {fields out : List Field}
    {declared : String × FieldDef} :
    objectType.addField declaration fields declared = .ok out ↔
      declared.1 ∉ fields.map Field.name ∧
        ∃ field, MakesField declared field ∧ out = fields ++ [field] := by
  have hknown : (fields.any fun field => field.name = declared.1) ↔
      declared.1 ∈ fields.map Field.name := by
    simp
  unfold objectType.addField
  by_cases hmem : declared.1 ∈ fields.map Field.name
  · simp [hknown.mpr hmem, hmem]
  · rw [if_neg (mt hknown.mp hmem), map_eq_ok]
    constructor
    · rintro ⟨type, htype, rfl⟩
      exact ⟨hmem, _, ⟨htype, rfl, rfl, rfl⟩, rfl⟩
    · rintro ⟨-, ⟨name, type, description, default?⟩, ⟨htype, rfl, rfl, rfl⟩, rfl⟩
      exact ⟨type, htype, rfl⟩

theorem foldlM_addField_eq_ok_iff {declaration : ObjectDef} {declared : List (String × FieldDef)}
    {fields out : List Field} (hfields : (fields.map Field.name).Nodup) :
    declared.foldlM (objectType.addField declaration) fields = .ok out ↔
      (fields.map Field.name ++ declared.map Prod.fst).Nodup ∧
        ∃ made, List.Forall₂ MakesField declared made ∧ out = fields ++ made := by
  induction declared generalizing fields with
  | nil => simp [hfields, pure, Except.pure, eq_comm]
  | cons first rest ih =>
    rw [foldlM_cons_eq_ok]
    simp only [addField_eq_ok_iff]
    constructor
    · rintro ⟨_, ⟨hnew, field, hfield, rfl⟩, hrest⟩
      have hnames : (fields ++ [field]).map Field.name = fields.map Field.name ++ [first.1] := by
        rw [List.map_append, List.map_singleton, hfield.2.1]
      obtain ⟨hdistinct, made, hmade, rfl⟩ :=
        (ih (hnames ▸ nodup_snoc.mpr ⟨hfields, hnew⟩)).mp hrest
      rw [hnames, List.append_assoc] at hdistinct
      exact ⟨hdistinct, field :: made, .cons hfield hmade, by simp⟩
    · rintro ⟨hdistinct, _, hall, rfl⟩
      obtain ⟨field, made, hfield, hmade, rfl⟩ := List.forall₂_cons_left_iff.mp hall
      have hnames : (fields ++ [field]).map Field.name = fields.map Field.name ++ [first.1] := by
        rw [List.map_append, List.map_singleton, hfield.2.1]
      have hdistinct' : ((fields ++ [field]).map Field.name ++ rest.map Prod.fst).Nodup := by
        rw [hnames, List.append_assoc]
        exact hdistinct
      have hnew : (fields.map Field.name ++ [first.1]).Nodup :=
        hnames ▸ (List.nodup_append.mp hdistinct').1
      refine ⟨_, ⟨(nodup_snoc.mp hnew).2, field, hfield, rfl⟩, ?_⟩
      exact (ih (hnames ▸ hnew)).mpr ⟨hdistinct', made, hmade, by simp⟩

/-- The object type of a declaration has the declared fields in order, none of them repeated. -/
theorem objectType_eq_ok_iff {declaration : ObjectDef} {object : ObjectType} :
    objectType declaration = .ok object ↔
      (declaration.fields.map Prod.fst).Nodup ∧ object.name = declaration.name ∧
        object.description = declaration.description ∧
          List.Forall₂ MakesField declaration.fields object.fields := by
  have hnil : (([] : List Field).map Field.name).Nodup := by simp
  unfold objectType
  rw [map_eq_ok]
  simp only [foldlM_addField_eq_ok_iff hnil, List.map_nil, List.nil_append]
  constructor
  · rintro ⟨_, ⟨hdistinct, made, hmade, rfl⟩, rfl⟩
    exact ⟨hdistinct, rfl, rfl, hmade⟩
  · obtain ⟨name, description, fields⟩ := object
    rintro ⟨hdistinct, rfl, rfl, hmade⟩
    exact ⟨fields, ⟨hdistinct, fields, hmade, rfl⟩, rfl⟩

/-- A declaration makes an object type if no field is repeated and each type text can be read. -/
theorem exists_objectType_iff {declaration : ObjectDef} :
    (∃ object, objectType declaration = .ok object) ↔
      (declaration.fields.map Prod.fst).Nodup ∧
        ∀ declared ∈ declaration.fields,
          ∃ type, InputType.parse declared.2.typeText = .ok type := by
  have hmade : ∀ fields : List (String × FieldDef), (∃ made, List.Forall₂ MakesField fields made) ↔
      ∀ declared ∈ fields, ∃ type, InputType.parse declared.2.typeText = .ok type := by
    intro fields
    induction fields with
    | nil => simp
    | cons first rest ih =>
      rw [List.forall_mem_cons, ← ih]
      constructor
      · rintro ⟨_, hall⟩
        obtain ⟨field, made, hfield, hrest, -⟩ := List.forall₂_cons_left_iff.mp hall
        exact ⟨⟨field.type, hfield.1⟩, made, hrest⟩
      · rintro ⟨⟨type, htype⟩, made, hrest⟩
        exact ⟨⟨first.1, type, first.2.description, first.2.default?⟩ :: made,
          .cons ⟨htype, rfl, rfl, rfl⟩ hrest⟩
  simp only [objectType_eq_ok_iff, ← hmade]
  constructor
  · rintro ⟨object, hdistinct, -, -, hall⟩
    exact ⟨hdistinct, object.fields, hall⟩
  · rintro ⟨hdistinct, made, hall⟩
    exact ⟨⟨declaration.name, declaration.description, made⟩, hdistinct, rfl, rfl, hall⟩

/-! ## The first pass -/

/-- The type that the declaration of an object or enum makes. -/
inductive MakesType : TypeDef → NamedType → Prop where
  | object {declaration : ObjectDef} {object : ObjectType}
    (hobject : objectType declaration = .ok object) :
    MakesType (.object declaration) (.object object)
  | enum {declaration : EnumDef} : MakesType (.enum declaration) (.enum (enumType declaration))

/-- The types and the unions that declarations make, each in order. -/
inductive Collects : List TypeDef → List NamedType → List UnionDef → Prop where
  | nil : Collects [] [] []
  | type {declaration : TypeDef} {type : NamedType} {rest : List TypeDef} {types : List NamedType}
    {unions : List UnionDef} (hmakes : MakesType declaration type)
    (hrest : Collects rest types unions) : Collects (declaration :: rest) (type :: types) unions
  | union {declaration : UnionDef} {rest : List TypeDef} {types : List NamedType}
    {unions : List UnionDef} (hrest : Collects rest types unions) :
    Collects (.union declaration :: rest) types (declaration :: unions)

theorem collect_eq_ok_iff {registry registry' : Registry} {unions unions' : List UnionDef}
    {declaration : TypeDef} :
    collect (registry, unions) declaration = .ok (registry', unions') ↔
      (∃ type, MakesType declaration type ∧ registry.add type = .ok registry' ∧
        unions' = unions) ∨
      ∃ union, declaration = .union union ∧ union.name ∉ unions.map UnionDef.name ∧
        registry' = registry ∧ unions' = unions ++ [union] := by
  have hmap : ∀ result : Except SchemaError Registry,
      result.map (fun registry => (registry, unions)) = .ok (registry', unions') ↔
        result = .ok registry' ∧ unions' = unions := by
    intro result
    cases result <;> simp [Except.map, eq_comm]
  cases declaration with
  | object declaration =>
    have hmakes : ∀ type, MakesType (.object declaration) type ↔
        ∃ object, objectType declaration = .ok object ∧ type = .object object := by
      intro type
      constructor
      · rintro ⟨⟩
        exact ⟨_, ‹_›, rfl⟩
      · rintro ⟨object, hobject, rfl⟩
        exact .object hobject
    simp only [hmakes, collect]
    cases hobject : objectType declaration with
    | error error => simp
    | ok object => simp [hmap]
  | enum declaration =>
    have hmakes : ∀ type, MakesType (.enum declaration) type ↔
        type = .enum (enumType declaration) := by
      intro type
      constructor
      · rintro ⟨⟩
        rfl
      · rintro rfl
        exact .enum
    simp [hmakes, collect, hmap]
  | union declaration =>
    have hmakes : ∀ type, ¬MakesType (.union declaration) type := by
      rintro type ⟨⟩
    have hknown : (unions.any fun other => other.name = declaration.name) ↔
        declaration.name ∈ unions.map UnionDef.name := by
      simp
    simp only [hmakes, collect, TypeDef.union.injEq, exists_eq_left']
    by_cases hmem : declaration.name ∈ unions.map UnionDef.name
    · rw [if_pos (hknown.mpr hmem)]
      simp only [hmem, not_true_eq_false]
      simp
    · rw [if_neg (mt hknown.mp hmem)]
      simp only [hmem, not_false_eq_true]
      simp [eq_comm]

/-- The pass goes through if every object type can be made, the names of objects and enums obey the
rule, and no name is taken twice, neither among types nor among unions. -/
theorem foldlM_collect_eq_ok_iff {declarations : List TypeDef} {registry registry' : Registry}
    {unions unions' : List UnionDef} (hregistry : registry.names.Nodup)
    (hunions : (unions.map UnionDef.name).Nodup) :
    declarations.foldlM collect (registry, unions) = .ok (registry', unions') ↔
      ∃ types new, Collects declarations types new ∧ registry' = ⟨registry.types ++ types⟩ ∧
        unions' = unions ++ new ∧ (∀ type ∈ types, Text.isName type.name) ∧
          registry'.names.Nodup ∧ (unions'.map UnionDef.name).Nodup := by
  induction declarations generalizing registry unions with
  | nil =>
    constructor
    · intro h
      cases h
      exact ⟨[], [], .nil, by simp, by simp, by simp, hregistry, hunions⟩
    · rintro ⟨_, _, ⟨⟩, rfl, rfl, -⟩
      simp [pure, Except.pure]
  | cons declaration rest ih =>
    rw [foldlM_cons_eq_ok]
    constructor
    · rintro ⟨⟨registry₁, unions₁⟩, hstep, hrest⟩
      rcases collect_eq_ok_iff.mp hstep with
        ⟨type, hmakes, hadd, rfl⟩ | ⟨union, rfl, hnew, rfl, rfl⟩
      · obtain ⟨hname, hnew, rfl⟩ := Registry.add_eq_ok_iff.mp hadd
        have hnames : (Registry.mk (registry.types ++ [type])).names.Nodup := by
          rw [Registry.names, List.map_append]
          exact nodup_snoc.mpr ⟨hregistry, hnew⟩
        obtain ⟨types, new, hcollects, rfl, rfl, hvalid, hdistinct⟩ := (ih hnames hunions).mp hrest
        exact ⟨type :: types, new, .type hmakes hcollects, by simp, rfl,
          List.forall_mem_cons.mpr ⟨hname, hvalid⟩, hdistinct⟩
      · have hnames : ((unions ++ [union]).map UnionDef.name).Nodup := by
          rw [List.map_append]
          exact nodup_snoc.mpr ⟨hunions, hnew⟩
        obtain ⟨types, new, hcollects, rfl, rfl, hvalid, hdistinct⟩ :=
          (ih hregistry hnames).mp hrest
        exact ⟨types, union :: new, .union hcollects, rfl, by simp, hvalid, hdistinct⟩
    · rintro ⟨_, _, hcollects, rfl, rfl, hvalid, hnames, hdistinct⟩
      cases hcollects with
      | @type _ type _ types _ hmakes hcollects =>
        obtain ⟨hname, hvalid⟩ := List.forall_mem_cons.mp hvalid
        have hsplit : (Registry.mk (registry.types ++ type :: types)).names =
            (Registry.mk (registry.types ++ [type])).names ++ types.map NamedType.name := by
          simp [Registry.names]
        have hnames' : (Registry.mk (registry.types ++ [type])).names.Nodup :=
          (List.nodup_append.mp (hsplit ▸ hnames)).1
        have hnew : type.name ∉ registry.names := by
          rw [Registry.names, List.map_append] at hnames'
          exact (nodup_snoc.mp hnames').2
        refine ⟨(⟨registry.types ++ [type]⟩, unions), ?_, ?_⟩
        · exact collect_eq_ok_iff.mpr
            (.inl ⟨type, hmakes, Registry.add_eq_ok_iff.mpr ⟨hname, hnew, rfl⟩, rfl⟩)
        · exact (ih hnames' hunions).mpr
            ⟨types, _, hcollects, by simp, rfl, hvalid, hnames, hdistinct⟩
      | @union union _ _ new hcollects =>
        have hsplit : (unions ++ union :: new).map UnionDef.name =
            (unions ++ [union]).map UnionDef.name ++ new.map UnionDef.name := by
          simp
        have hdistinct' : ((unions ++ [union]).map UnionDef.name).Nodup :=
          (List.nodup_append.mp (hsplit ▸ hdistinct)).1
        have hnew : union.name ∉ unions.map UnionDef.name := by
          rw [List.map_append] at hdistinct'
          exact (nodup_snoc.mp hdistinct').2
        refine ⟨(registry, unions ++ [union]), ?_, ?_⟩
        · exact collect_eq_ok_iff.mpr (.inr ⟨union, rfl, hnew, rfl, rfl⟩)
        · exact (ih hregistry hdistinct').mpr
            ⟨_, new, hcollects, rfl, by simp, hvalid, hnames, hdistinct⟩

end Document

end TaggedUnion
