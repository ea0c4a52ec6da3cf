import Mathlib.Algebra.Order.BigOperators.Group.List
import Mathlib.Algebra.Order.Ring.Nat
import TaggedUnion.Coercion.Descent
import TaggedUnion.Registry
import TaggedUnion.Union.CaseTable

/-!
# Sizes of types

The size of a type counts the types that it is made of: items, fields and candidates. A function
given to a union counts by its answers, which have to be finitely many, as those of a case table
are. A registered type does not count where it is only named.

* `InputType.Sized`, `Registry.Sized`: what the sizes of types are.
* `InputType.IsFinite`, `exists_sized`: a type has a size unless a function in it has more answers
  than a list holds.
* `UnionType.exists_lists`: with case tables for functions, the candidates can be listed.
* `NamedType.sized_of_before`: a candidate of a union, wrapped or not, is smaller than the union.
-/

namespace TaggedUnion

/-- The candidates of a union are all in a list. -/
def UnionType.Lists (parts : List InputType) (union : UnionType) : Prop :=
  ∀ type, union.Holds type → type ∈ parts

/-- The sizes of a type. An answer of a function may be wrapped, which adds an object type and a tag
to it. -/
inductive InputType.Sized : InputType → Nat → Prop where
  | builtin {scalar : Builtin} : Sized (.named (.builtin scalar)) 1
  | enum {enum : EnumType} : Sized (.named (.enum enum)) 1
  | object {object : ObjectType} {size : Field → Nat}
    (hfields : ∀ field ∈ object.fields, Sized field.type (size field)) :
    Sized (.named (.object object)) ((object.fields.map size).sum + 1)
  | union {union : UnionType} {parts : List InputType} {size : InputType → Nat}
    (hlists : union.Lists parts) (hparts : ∀ part ∈ parts, Sized part (size part)) :
    Sized (.named (.union union)) ((parts.map fun part => size part + 2).sum + 1)
  | list {item : InputType} {size : Nat} (hitem : Sized item size) : Sized (.list item) (size + 1)
  | nonNull {inner : InputType} {size : Nat} (hinner : Sized inner size) :
    Sized (.nonNull inner) (size + 1)
  | reference {name : String} : Sized (.reference name) 1

/-- No registered type is larger than `size`. -/
def Registry.Sized (registry : Registry) (size : Nat) : Prop :=
  ∀ type ∈ registry.types, ∃ n ≤ size, (InputType.named type).Sized n

/-! ## Which types have a size -/

/-- The unions inside a type. -/
inductive InputType.Contains : InputType → UnionType → Prop where
  | here {union : UnionType} : Contains (.named (.union union)) union
  | candidate {outer union : UnionType} {type : InputType} (hholds : outer.Holds type)
    (h : Contains type union) : Contains (.named (.union outer)) union
  | field {object : ObjectType} {field : Field} {union : UnionType} (hmem : field ∈ object.fields)
    (h : Contains field.type union) : Contains (.named (.object object)) union
  | list {item : InputType} {union : UnionType} (h : Contains item union) :
    Contains (.list item) union
  | nonNull {inner : InputType} {union : UnionType} (h : Contains inner union) :
    Contains (.nonNull inner) union

/-- The candidates of each union in a type can be listed. -/
def InputType.IsFinite (type : InputType) : Prop :=
  ∀ union, type.Contains union → ∃ parts, union.Lists parts

/-- A choice for each member of a list. -/
theorem exists_forall_mem {α : Type} {items : List α} {p : α → Nat → Prop}
    (h : ∀ item ∈ items, ∃ n, p item n) : ∃ f : α → Nat, ∀ item ∈ items, p item (f item) := by
  classical
  exact ⟨fun item => if hmem : item ∈ items then (h item hmem).choose else 0, fun item hmem => by
    simpa [hmem] using (h item hmem).choose_spec⟩

/-- A type has a size if the candidates of each union in it can be listed. -/
theorem InputType.exists_sized {type : InputType} (h : type.IsFinite) :
    ∃ size, type.Sized size := by
  induction type using typeInduction with
  | builtin scalar => exact ⟨1, .builtin⟩
  | enum enum => exact ⟨1, .enum⟩
  | reference name => exact ⟨1, .reference⟩
  | list item ih =>
    obtain ⟨size, hsize⟩ := ih fun union hcontains => h union (.list hcontains)
    exact ⟨size + 1, .list hsize⟩
  | nonNull inner ih =>
    obtain ⟨size, hsize⟩ := ih fun union hcontains => h union (.nonNull hcontains)
    exact ⟨size + 1, .nonNull hsize⟩
  | object object ih =>
    obtain ⟨size, hsize⟩ := exists_forall_mem fun field hmem =>
      ih field hmem fun union hcontains => h union (.field hmem hcontains)
    exact ⟨_, .object hsize⟩
  | union union ih =>
    obtain ⟨parts, hlists⟩ := h union .here
    -- What is listed without being a candidate is left out.
    classical
    have hparts : ∀ part ∈ parts.filter fun part => union.Holds part, ∃ n, part.Sized n := by
      intro part hmem
      have hholds := of_decide_eq_true (List.mem_filter.mp hmem).2
      exact ih part hholds fun inner hcontains => h inner (.candidate hholds hcontains)
    obtain ⟨size, hsize⟩ := exists_forall_mem hparts
    refine ⟨_, .union (fun part hholds => ?_) hsize⟩
    exact List.mem_filter.mpr ⟨hlists part hholds, decide_eq_true hholds⟩

theorem Registry.exists_sized {registry : Registry}
    (h : ∀ type ∈ registry.types, (InputType.named type).IsFinite) :
    ∃ size, registry.Sized size := by
  obtain ⟨sizes, hsizes⟩ := exists_forall_mem fun type hmem =>
    InputType.exists_sized (h type hmem)
  exact ⟨(registry.types.map sizes).sum, fun type hmem =>
    ⟨sizes type, List.le_sum_of_mem (List.mem_map_of_mem hmem), hsizes type hmem⟩⟩

/-! ## Case tables -/

/-- The functions of a union are case tables. -/
structure UnionType.HasCaseTables (union : UnionType) : Prop where
  ofKeys : ∀ types wrap, union.lookup = .deferred types wrap →
    ∃ table : CaseTable String (Option InputType), types = table.apply
  ofLiterals : ∀ types, union.typeOfLiteral = some types →
    ∃ table : CaseTable LiteralCondition (Option InputType), types = table.apply

section

variable {κ α β : Type} [Condition κ α]

/-- The outcomes that are in a case table. -/
def CaseTable.outcomes (table : CaseTable κ β) : List β :=
  table.otherwise :: table.cases.map Prod.snd

/-- A case table answers with what is in it. -/
theorem CaseTable.mem_of_apply (table : CaseTable κ β) (a : α) :
    table.apply a ∈ table.outcomes := by
  unfold apply select
  cases hfind : table.cases.find? fun case => Condition.holds a case.1 with
  | none => exact List.mem_cons_self
  | some case =>
    exact List.mem_cons_of_mem _ (List.mem_map_of_mem (List.mem_of_find?_eq_some hfind))

theorem CaseTable.mem_of_apply_eq_some {table : CaseTable κ (Option β)} {a : α} {b : β}
    (h : table.apply a = some b) : b ∈ table.outcomes.filterMap id :=
  List.mem_filterMap.mpr ⟨some b, h ▸ table.mem_of_apply a, rfl⟩

end

/-- With case tables for functions, the candidates of a union can be listed. -/
theorem UnionType.exists_lists {union : UnionType} (h : union.HasCaseTables) :
    ∃ parts, union.Lists parts := by
  obtain ⟨found, hfound⟩ : ∃ found : List InputType, ∀ type, union.lookup.Holds type →
      type ∈ found := by
    cases hlookup : union.lookup with
    | table entries =>
      refine ⟨entries.map fun entry => .named entry.2, ?_⟩
      rintro _ ⟨hmem⟩
      exact List.mem_map_of_mem hmem
    | deferred types wrap =>
      obtain ⟨table, rfl⟩ := h.ofKeys types wrap hlookup
      refine ⟨table.outcomes.filterMap id, ?_⟩
      intro type hholds
      cases hholds with
      | answer hanswer => exact CaseTable.mem_of_apply_eq_some hanswer
    | absent => exact ⟨[], nofun⟩
  obtain ⟨chosen, hchosen⟩ : ∃ chosen : List InputType, ∀ types, union.typeOfLiteral = some types →
      ∀ node type, types node = some type → type ∈ chosen := by
    cases hliteral : union.typeOfLiteral with
    | none => exact ⟨[], nofun⟩
    | some types =>
      obtain ⟨table, rfl⟩ := h.ofLiterals types hliteral
      refine ⟨table.outcomes.filterMap id, ?_⟩
      rintro _ ⟨⟩ node type hanswer
      exact CaseTable.mem_of_apply_eq_some hanswer
  refine ⟨found ++ chosen, fun type hholds => ?_⟩
  cases hholds with
  | found hholds => exact List.mem_append_left _ (hfound type hholds)
  | chosen hliteral hanswer =>
    exact List.mem_append_right _ (hchosen _ hliteral _ type hanswer)

/-! ## Smaller types -/

section

variable {size : Nat}

theorem InputType.Sized.pos {type : InputType} (h : type.Sized size) : 0 < size := by
  cases h <;> omega

/-- A field of an object type is smaller than the object type. -/
theorem Field.sized_of_mem {object : ObjectType} {field : Field}
    (h : (InputType.named (.object object)).Sized size) (hmem : field ∈ object.fields) :
    ∃ n < size, field.type.Sized n := by
  cases h with
  | @object _ sizes hfields =>
    have hle : sizes field ≤ (object.fields.map sizes).sum :=
      List.le_sum_of_mem (List.mem_map_of_mem hmem)
    exact ⟨_, Nat.lt_succ_of_le hle, hfields field hmem⟩

theorem InputType.sized_wrapperOf {key : String} {payload : NamedType}
    (h : (InputType.named payload).Sized size) :
    (InputType.named (.object (wrapperOf key payload))).Sized (size + 2) := by
  let sizes (field : Field) : Nat := if field.name = typeField then 1 else size
  have hfields : ∀ field ∈ (wrapperOf key payload).fields, field.type.Sized (sizes field) := by
    intro field hmem
    rcases List.mem_pair.mp hmem with rfl | rfl
    · exact .builtin
    · exact h
  have hsum : ((wrapperOf key payload).fields.map sizes).sum + 1 = size + 2 := by
    simp [wrapperOf, sizes, typeField, valueField]
    omega
  exact hsum ▸ .object hfields

/-- What a union leads to without going to a part of a value is smaller than the union. -/
theorem NamedType.sized_of_before {union : UnionType} {type : NamedType}
    (h : (InputType.named (.union union)).Sized size)
    (hbefore : InputType.Before (.named type) (.named (.union union))) :
    ∃ n < size, (InputType.named type).Sized n := by
  cases h with
  | @union _ parts sizes hlists hparts =>
    have hle : ∀ part ∈ parts, sizes part + 2 ≤ (parts.map fun part => sizes part + 2).sum :=
      fun part hmem => List.le_sum_of_mem
        (List.mem_map_of_mem (f := fun part => sizes part + 2) hmem)
    cases hbefore with
    | candidate hholds =>
      have hmem := hlists _ hholds
      have hpart := hle _ hmem
      exact ⟨_, by omega, hparts _ hmem⟩
    | wrapper hholds =>
      have hmem := hlists _ hholds
      exact ⟨_, Nat.lt_succ_of_le (hle _ hmem), InputType.sized_wrapperOf (hparts _ hmem)⟩

end

end TaggedUnion
