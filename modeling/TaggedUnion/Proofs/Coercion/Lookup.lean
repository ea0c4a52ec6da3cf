import TaggedUnion.Proofs.Coercion.NodeInduction

/-!
# Only what names stand for matters

Values are checked and literals converted against a registry. Two registries in which each name
stands for the same type are the same to them, whatever the order of the types.

* `Registry.SameLookups`: the same type for each name.
* `coerce_congr`, `parseValue_congr`: the check of runtime values, errors included.
* `convert_congr`, `parseLiteral_congr`: the conversion of literals.
-/

namespace TaggedUnion

/-- In both registries, each name stands for the same type. -/
def Registry.SameLookups (registry registry' : Registry) : Prop :=
  ∀ name, registry.get? name = registry'.get? name

section Lookups

variable {registry registry' : Registry}

/-! ## Runtime values -/

section Values

variable {value : Json}

theorem coerceItems_congr {item item' : InputType} {items : List Json} {index : Nat}
    (h : ∀ value ∈ items, item.coerce registry value = item'.coerce registry' value) :
    coerceItems registry item index items = coerceItems registry' item' index items := by
  induction items generalizing index with
  | nil => rfl
  | cons value rest ih =>
    obtain ⟨hvalue, hrest⟩ := List.forall_mem_cons.mp h
    simp only [coerceItems, hvalue, ih hrest]

theorem coerceFields_congr {members : List (String × Json)} {fields : List Field}
    (h : ∀ field ∈ fields, ∀ value, members.lookup field.name = some value →
      field.type.coerce registry value = field.type.coerce registry' value) :
    coerceFields registry members fields = coerceFields registry' members fields := by
  induction fields with
  | nil => rfl
  | cons field rest ih =>
    obtain ⟨hfield, hrest⟩ := List.forall_mem_cons.mp h
    have hhere : coerceField registry members field = coerceField registry' members field := by
      unfold coerceField
      cases hlookup : members.lookup field.name with
      | some value => simp only [hfield value hlookup]
      | none => rfl
    rw [coerceFields_cons, coerceFields_cons, hhere, ih hrest]

/-- A union is asked the same if its candidates are. -/
theorem parseValue_congr_of {union : UnionType}
    (h : ∀ type, union.typeOfValue value = .ok type →
      (InputType.named type).coerce registry value =
        (InputType.named type).coerce registry' value) :
    union.parseValue registry value = union.parseValue registry' value := by
  cases htype : union.typeOfValue value with
  | error error =>
    rw [parseValue_of_typeOfValue_error htype, parseValue_of_typeOfValue_error htype]
  | ok type => rw [parseValue_of_typeOfValue htype, parseValue_of_typeOfValue htype, h type htype]

/-- **The check depends on what names stand for.** -/
theorem coerce_congr (h : registry.SameLookups registry') (type : InputType) (value : Json) :
    type.coerce registry value = type.coerce registry' value := by
  induction type, value using valueInduction registry with
  | null type =>
    cases type with
    | nonNull inner => rw [coerce_null_nonNull, coerce_null_nonNull]
    | _ => rw [coerce_null rfl, coerce_null rfl]
  | nonNull inner value hnull ih => rw [coerce_nonNull hnull, coerce_nonNull hnull, ih]
  | reference name value hnull ih =>
    cases hget : registry.get? name with
    | none =>
      rw [coerce_reference_none hnull hget, coerce_reference_none hnull (h name ▸ hget)]
    | some type =>
      rw [coerce_reference_some hnull hget, coerce_reference_some hnull (h name ▸ hget),
        ih type hget]
  | array item items ih => rw [coerce_array, coerce_array, coerceItems_congr ih]
  | lone item value hnull harray ih =>
    rw [coerce_lone hnull harray, coerce_lone hnull harray, ih]
  | builtin scalar value hnull => rw [coerce_builtin hnull, coerce_builtin hnull]
  | enum enum value hnull => rw [coerce_enum hnull, coerce_enum hnull]
  | object object members ih => rw [coerce_object, coerce_object, coerceFields_congr ih]
  | other object value hnull hobject =>
    rw [coerce_not_object hnull hobject, coerce_not_object hnull hobject]
  | union union value hnull ih =>
    rw [coerce_union hnull, coerce_union hnull, parseValue_congr_of ih]

theorem parseValue_congr (h : registry.SameLookups registry') (union : UnionType) (value : Json) :
    union.parseValue registry value = union.parseValue registry' value :=
  parseValue_congr_of fun type _ => coerce_congr h (.named type) value

end Values

/-! ## Literals -/

section Literals

variable {source : Source} {node : Literal.Node}

theorem convertItems_congr {item item' : InputType} {items : List Literal.Node}
    (h : ∀ part ∈ items,
      item.convert registry source part = item'.convert registry' source part) :
    convertItems registry source item items = convertItems registry' source item' items := by
  induction items with
  | nil => rw [convertItems_nil, convertItems_nil]
  | cons part rest ih =>
    obtain ⟨hpart, hrest⟩ := List.forall_mem_cons.mp h
    rw [convertItems_cons, convertItems_cons, hpart, ih hrest]

theorem convertFields_congr {given : List Literal.Field} {fields : List Field}
    (h : ∀ field ∈ fields, ∀ found,
      given.find? (fun other => other.name.text = field.name) = some found →
        field.type.convert registry source found.value =
          field.type.convert registry' source found.value) :
    convertFields registry source given fields = convertFields registry' source given fields := by
  induction fields with
  | nil => rw [convertFields_nil, convertFields_nil]
  | cons field rest ih =>
    obtain ⟨hfield, hrest⟩ := List.forall_mem_cons.mp h
    have hhere : convertField registry source given field =
        convertField registry' source given field := by
      unfold convertField
      cases hfind : given.find? fun other => other.name.text = field.name with
      | some found => simp only [hfield found hfind]
      | none => rfl
    rw [convertFields_cons, convertFields_cons, hhere, ih hrest]

/-- A union is asked the same if its candidates are. -/
theorem parseLiteral_congr_of {union : UnionType}
    (h : ∀ type, union.typeOfNode source node = .ok type →
      (InputType.named type).convert registry source node =
        (InputType.named type).convert registry' source node) :
    union.parseLiteral registry source node = union.parseLiteral registry' source node := by
  cases htype : union.typeOfNode source node with
  | error error =>
    rw [parseLiteral_of_typeOfNode_error htype, parseLiteral_of_typeOfNode_error htype]
  | ok type =>
    rw [parseLiteral_of_typeOfNode htype, parseLiteral_of_typeOfNode htype, gateLiteral,
      gateLiteral, h type htype]

/-- **The conversion depends on what names stand for.** -/
theorem convert_congr (h : registry.SameLookups registry') (source : Source) (type : InputType)
    (node : Literal.Node) : type.convert registry source node =
      type.convert registry' source node := by
  induction type, node using nodeInduction registry source with
  | null type node hnonNull hnull => rw [convert_null hnonNull hnull, convert_null hnonNull hnull]
  | nonNull inner node ih => rw [convert_nonNull, convert_nonNull, ih]
  | reference name node hnull ih =>
    rw [convert_reference hnull, convert_reference hnull, ← h name]
    exact Option.bind_congr fun type hget => ih type hget
  | list item node items hvalue ih =>
    rw [convert_list hvalue, convert_list hvalue, convertItems_congr ih]
  | lone item node hnull hlist ih => rw [convert_lone hnull hlist, convert_lone hnull hlist, ih]
  | builtin scalar node hnull => rw [convert_builtin hnull, convert_builtin hnull]
  | enum enum node hnull => rw [convert_enum hnull, convert_enum hnull]
  | object object node given hvalue ih =>
    rw [convert_object hvalue, convert_object hvalue, convertFields_congr ih]
  | other object node hnull hobject =>
    rw [convert_not_object hnull hobject, convert_not_object hnull hobject]
  | union union node hnull ih =>
    rw [convert_union hnull, convert_union hnull, parseLiteral_congr_of ih]

theorem parseLiteral_congr (h : registry.SameLookups registry') (source : Source)
    (union : UnionType) (node : Literal.Node) : union.parseLiteral registry source node =
      union.parseLiteral registry' source node :=
  parseLiteral_congr_of fun type _ => convert_congr h source (.named type) node

end Literals

end Lookups

end TaggedUnion
