import TaggedUnion.Proofs.Coercion.Lookup
import TaggedUnion.Proofs.Coercion.Variants

/-!
# Callbacks stay in their mode

Wherever a union is met, its callback for literals says nothing about the check of a runtime value,
and its callback for values nothing about the conversion of a literal. That is a statement about two
runs, one for each of two variants.

* `typeOfValue_of_over`, `typeOfNode_of_over`: what one union reads.
* `coerce_of_variants`: the check, with other callbacks for literals.
* `convert_of_variants`: the conversion, with other callbacks for values.
* `outcomes_of_variants`: both modes.
-/

namespace TaggedUnion

/-! ## Runtime values -/

section Values

variable {registry registry' : Registry}

theorem valueKey_of_over {R : InputType → InputType → Prop} {union union' : UnionType}
    (h : union.Over .ofLiteral R union') (value : Json) :
    union.valueKey value = union'.valueKey value := by
  cases h with
  | intro _ hvalue _ =>
    obtain rfl := hvalue (by decide)
    rfl

/-- The callback for literals is not asked for the candidate of a value. -/
theorem typeOfValue_of_over {union union' : UnionType}
    (h : union.Over .ofLiteral (InputType.Variants .ofLiteral) union') (value : Json) :
    Alike (NamedType.Variants .ofLiteral) (union.typeOfValue value) (union'.typeOfValue value) := by
  have hkey := valueKey_of_over h value
  cases h with
  | intro hlookup _ _ =>
    unfold UnionType.typeOfValue
    rw [hkey]
    generalize UnionType.valueKey _ value = outcome
    cases outcome with
    | error error => exact .error
    | ok key => exact resolve_of_over hlookup

theorem parseValue_of_over {union union' : UnionType}
    (h : union.Over .ofLiteral (InputType.Variants .ofLiteral) union') {value : Json}
    (hcandidate : ∀ type, union.typeOfValue value = .ok type →
      ∀ type', NamedType.Variants .ofLiteral type type' →
        (InputType.named type).coerce registry value =
          (InputType.named type').coerce registry' value) :
    union.parseValue registry value = union'.parseValue registry' value := by
  have hname : union.name = union'.name := NamedType.Variants.name_eq (.union h)
  have htypes := typeOfValue_of_over h value
  generalize htype : union.typeOfValue value = outcome at htypes
  generalize htype' : union'.typeOfValue value = outcome' at htypes
  cases htypes with
  | error =>
    rw [parseValue_of_typeOfValue_error htype, parseValue_of_typeOfValue_error htype']
  | ok hvariants =>
    rw [parseValue_of_typeOfValue htype, parseValue_of_typeOfValue htype', hname,
      hvariants.name_eq, hcandidate _ htype _ hvariants]

theorem coerceFields_of_over {callback : Callback} {members : List (String × Json)}
    {fields fields' : List Field}
    (h : List.Forall₂ (Field.Over (InputType.Variants callback)) fields fields')
    (hfield : ∀ field ∈ fields, ∀ value, members.lookup field.name = some value →
      ∀ type', field.type.Variants callback type' →
        field.type.coerce registry value = type'.coerce registry' value) :
    coerceFields registry members fields = coerceFields registry' members fields' := by
  induction h with
  | nil => rfl
  | @cons field field' rest rest' hhead _ ih =>
    obtain ⟨hfirst, hrest⟩ := List.forall_mem_cons.mp hfield
    cases hhead with
    | @intro name type type' description default? htype =>
      have habsent : absentField ⟨name, type, description, default?⟩ =
          absentField ⟨name, type', description, default?⟩ := by
        simp only [absentField, htype.isNonNull_eq, htype.text_eq]
      have hhere : coerceField registry members ⟨name, type, description, default?⟩ =
          coerceField registry' members ⟨name, type', description, default?⟩ := by
        unfold coerceField
        simp only []
        cases hlookup : members.lookup name with
        | none => exact habsent
        | some value => simp only [hfirst value hlookup type' htype]
      rw [coerceFields_cons, coerceFields_cons, hhere, ih hrest]

theorem undeclared_of_over {R : InputType → InputType → Prop} {object object' : ObjectType}
    (h : object.Over R object') (members : List (String × Json)) :
    undeclared object members = undeclared object' members := by
  have hname : object.name = object'.name := by
    cases h
    rfl
  have hfields : ∀ name, (object.field? name).isNone = (object'.field? name).isNone := by
    intro name
    rw [← Option.not_isSome, ← Option.not_isSome, isSome_field?_of_over h]
  unfold undeclared
  simp only [hfields, hname]

/-- **The check of a runtime value does not ask the callbacks for literals.** -/
theorem coerce_of_variants (hregistry : registry.Variants .ofLiteral registry')
    {type type' : InputType} (h : type.Variants .ofLiteral type') (value : Json) :
    type.coerce registry value = type'.coerce registry' value := by
  induction type, value using valueInduction registry generalizing type' with
  | null type =>
    have htext := h.text_eq
    cases h with
    | nonNull => rw [coerce_null_nonNull, coerce_null_nonNull, htext]
    | _ => rw [coerce_null rfl, coerce_null rfl]
  | nonNull inner value hnull ih =>
    cases h with
    | nonNull h => rw [coerce_nonNull hnull, coerce_nonNull hnull, ih h]
  | reference name value hnull ih =>
    cases h with
    | reference =>
      have hfound := hregistry.get? name
      generalize hget : registry.get? name = found at hfound
      generalize hget' : registry'.get? name = found' at hfound
      cases hfound with
      | none => rw [coerce_reference_none hnull hget, coerce_reference_none hnull hget']
      | some htype =>
        rw [coerce_reference_some hnull hget, coerce_reference_some hnull hget', ih _ hget htype]
  | array item items ih =>
    cases h with
    | list h => rw [coerce_array, coerce_array, coerceItems_congr fun value hmem => ih value hmem h]
  | lone item value hnull harray ih =>
    cases h with
    | list h => rw [coerce_lone hnull harray, coerce_lone hnull harray, ih h]
  | builtin scalar value hnull =>
    cases h
    rw [coerce_builtin hnull, coerce_builtin hnull]
  | enum enum value hnull =>
    cases h
    rw [coerce_enum hnull, coerce_enum hnull]
  | object object members ih =>
    cases h with
    | object h =>
      have hundeclared := undeclared_of_over h members
      cases h with
      | intro hfields =>
        rw [coerce_object, coerce_object, hundeclared, coerceFields_of_over hfields
          fun field hmem value hlookup _ htype => ih field hmem value hlookup htype]
  | other object value hnull hobject =>
    cases h with
    | object h =>
      rw [coerce_not_object hnull hobject, coerce_not_object hnull hobject]
      cases h
      rfl
  | union union value hnull ih =>
    cases h with
    | union h =>
      rw [coerce_union hnull, coerce_union hnull,
        parseValue_of_over h fun type htype _ hvariants => ih type htype hvariants]
      cases h
      rfl

end Values

/-! ## Literals -/

section Literals

variable {registry registry' : Registry} {source : Source} {node : Literal.Node}

/-- What two unions read from a literal: related candidates, or the same key. -/
inductive LiteralTarget.Over (R : InputType → InputType → Prop) :
    LiteralTarget → LiteralTarget → Prop where
  | type {type type' : InputType} (h : R type type') : Over R (.type type) (.type type')
  | key {key : String} : Over R (.key key) (.key key)

theorem literalTarget_of_over {R : InputType → InputType → Prop} {union union' : UnionType}
    (h : union.Over .ofValue R union') :
    Alike (LiteralTarget.Over R) (union.literalTarget source node)
      (union'.literalTarget source node) := by
  cases h with
  | @intro _ _ typeKey _ _ _ _ _ _ _ _ hliteral =>
    have hanswers := hliteral (by decide)
    unfold UnionType.literalTarget
    cases hanswers with
    | @given types types' h =>
      have hanswer := h node
      simp only []
      generalize types node = found at hanswer
      generalize types' node = found' at hanswer
      cases hanswer with
      | some htype => exact .ok (.type htype)
      | none => exact .error
    | absent =>
      cases typeKey with
      | some field =>
        simp only []
        cases (node.field? field).bind fun field => field.value.key? with
        | some key => exact .ok .key
        | none => exact .error
      | none =>
        simp only []
        cases UnionType.wrapperKey? node with
        | some key => exact .ok .key
        | none => exact .error

/-- The callback for values is not asked for the candidate of a literal. -/
theorem typeOfNode_of_over {union union' : UnionType}
    (h : union.Over .ofValue (InputType.Variants .ofValue) union') :
    Alike (NamedType.Variants .ofValue) (union.typeOfNode source node)
      (union'.typeOfNode source node) := by
  have htargets : Alike (LiteralTarget.Over (InputType.Variants .ofValue))
      (union.literalTarget source node) (union'.literalTarget source node) :=
    literalTarget_of_over h
  have hname : union.name = union'.name := NamedType.Variants.name_eq (.union h)
  unfold UnionType.typeOfNode
  rw [hname]
  generalize union.literalTarget source node = outcome at htargets ⊢
  generalize union'.literalTarget source node = outcome' at htargets ⊢
  cases htargets with
  | error => exact .error
  | ok htarget =>
    cases htarget with
    | type htype =>
      simp only [htype.text_eq]
      exact ensureCandidate_of_variants htype
    | key =>
      cases h with
      | intro hlookup _ _ => exact resolve_of_over hlookup

theorem parseLiteral_of_over {union union' : UnionType}
    (h : union.Over .ofValue (InputType.Variants .ofValue) union')
    (hcandidate : ∀ type, union.typeOfNode source node = .ok type →
      ∀ type', NamedType.Variants .ofValue type type' →
        (InputType.named type).convert registry source node =
          (InputType.named type').convert registry' source node) :
    union.parseLiteral registry source node = union'.parseLiteral registry' source node := by
  have hname : union.name = union'.name := NamedType.Variants.name_eq (.union h)
  have htypes : Alike (NamedType.Variants .ofValue) (union.typeOfNode source node)
      (union'.typeOfNode source node) := typeOfNode_of_over h
  generalize htype : union.typeOfNode source node = outcome at htypes
  generalize htype' : union'.typeOfNode source node = outcome' at htypes
  cases htypes with
  | error =>
    rw [parseLiteral_of_typeOfNode_error htype, parseLiteral_of_typeOfNode_error htype']
  | ok hvariants =>
    rw [parseLiteral_of_typeOfNode htype, parseLiteral_of_typeOfNode htype', gateLiteral,
      gateLiteral, hname, hcandidate _ htype _ hvariants, InputType.Variants.text_eq hvariants]

theorem convertFields_of_over {callback : Callback} {given : List Literal.Field}
    {fields fields' : List Field}
    (h : List.Forall₂ (Field.Over (InputType.Variants callback)) fields fields')
    (hfield : ∀ field ∈ fields, ∀ found,
      given.find? (fun other => other.name.text = field.name) = some found →
        ∀ type', field.type.Variants callback type' →
          field.type.convert registry source found.value =
            type'.convert registry' source found.value) :
    convertFields registry source given fields = convertFields registry' source given fields' := by
  induction h with
  | nil => rw [convertFields_nil, convertFields_nil]
  | @cons field field' rest rest' hhead _ ih =>
    obtain ⟨hfirst, hrest⟩ := List.forall_mem_cons.mp hfield
    cases hhead with
    | @intro name type type' description default? htype =>
      have hdefault : defaultMember? ⟨name, type, description, default?⟩ =
          defaultMember? ⟨name, type', description, default?⟩ := by
        simp only [defaultMember?, htype.isNonNull_eq]
      have hhere : convertField registry source given ⟨name, type, description, default?⟩ =
          convertField registry' source given ⟨name, type', description, default?⟩ := by
        unfold convertField
        simp only []
        cases hfind : given.find? fun other => other.name.text = name with
        | none => exact hdefault
        | some found => simp only [hfirst found hfind type' htype]
      rw [convertFields_cons, convertFields_cons, hhere, ih hrest]

/-- **The conversion of a literal does not ask the callbacks for values.** -/
theorem convert_of_variants (hregistry : registry.Variants .ofValue registry')
    {type type' : InputType} (h : type.Variants .ofValue type') (source : Source)
    (node : Literal.Node) :
    type.convert registry source node = type'.convert registry' source node := by
  induction type, node using nodeInduction registry source generalizing type' with
  | null type node hnonNull hnull =>
    rw [convert_null hnonNull hnull, convert_null (h.isNonNull_eq ▸ hnonNull) hnull]
  | nonNull inner node ih =>
    cases h with
    | nonNull h => rw [convert_nonNull, convert_nonNull, ih h]
  | reference name node hnull ih =>
    cases h with
    | reference =>
      have hfound := hregistry.get? name
      rw [convert_reference hnull, convert_reference hnull]
      generalize hget : registry.get? name = found at hfound
      generalize hget' : registry'.get? name = found' at hfound
      cases hfound with
      | none => rfl
      | some htype => exact ih _ hget htype
  | list item node items hvalue ih =>
    cases h with
    | list h =>
      rw [convert_list hvalue, convert_list hvalue,
        convertItems_congr fun part hmem => ih part hmem h]
  | lone item node hnull hlist ih =>
    cases h with
    | list h => rw [convert_lone hnull hlist, convert_lone hnull hlist, ih h]
  | builtin scalar node hnull =>
    cases h
    rw [convert_builtin hnull, convert_builtin hnull]
  | enum enum node hnull =>
    cases h
    rw [convert_enum hnull, convert_enum hnull]
  | object object node given hvalue ih =>
    cases h with
    | object h =>
      have hdeclared := isSome_field?_of_over h
      cases h with
      | intro hfields =>
        rw [convert_object hvalue, convert_object hvalue]
        simp only [hdeclared, convertFields_of_over hfields
          fun field hmem found hfind _ htype => ih field hmem found hfind htype]
  | other object node hnull hobject =>
    cases h
    rw [convert_not_object hnull hobject, convert_not_object hnull hobject]
  | union union node hnull ih =>
    cases h with
    | union h =>
      rw [convert_union hnull, convert_union hnull,
        parseLiteral_of_over h fun type htype _ hvariants => ih type htype hvariants]

end Literals

/-! ## Both modes -/

/-- **Callbacks stay in their mode.** If two registries and two types are equal except that the
unions in them, at any depth, may have other callbacks for literals, then each runtime value has the
same outcome under both, errors included. If they may have other callbacks for runtime values, then
each literal converts to the same under both. -/
theorem outcomes_of_variants (registry registry' : Registry) (type type' : InputType) :
    (registry.Variants .ofLiteral registry' → type.Variants .ofLiteral type' →
      ∀ value, type.coerce registry value = type'.coerce registry' value) ∧
    (registry.Variants .ofValue registry' → type.Variants .ofValue type' →
      ∀ source node,
        type.convert registry source node = type'.convert registry' source node) :=
  ⟨fun hregistry h value => coerce_of_variants hregistry h value,
    fun hregistry h source node => convert_of_variants hregistry h source node⟩

/-- A union of wrapped counts. -/
def countsUnion : UnionType :=
  { name := "U", description := none, typeKey := none
    lookup := .table [("Int", .object (wrapperOf "Int" (.builtin .int)))]
    keyOfValue := none, typeOfLiteral := none }

/-- A registry with that union, which finds a candidate for no literal, or else `"Float"` for the
key of each value. -/
def countsRegistry : Option Callback → Registry
  | none => ⟨[.union countsUnion]⟩
  | some .ofLiteral => ⟨[.union { countsUnion with typeOfLiteral := some fun _ => none }]⟩
  | some .ofValue => ⟨[.union { countsUnion with keyOfValue := some fun _ => "Float" }]⟩

/-- Lists of counts are taken with each of the callbacks, in the mode that does not ask it. -/
theorem outcomes_of_variants_counts :
    (InputType.list (.reference "U")).coerce (countsRegistry (some .ofLiteral))
        (.array [.object [("_type_", .string "Int"), ("_value_", .number (.integer 3))]]) =
      .ok (.array [.object [("_type_", .string "Int"), ("_value_", .number (.integer 3))]]) ∧
    (InputType.list (.reference "U")).convert (countsRegistry (some .ofValue)) ⟨"", ""⟩
        ⟨.object
          [⟨⟨"_type_", ⟨1, 7⟩⟩, ⟨.string "Int", ⟨8, 13⟩⟩, ⟨1, 13⟩⟩,
            ⟨⟨"_value_", ⟨14, 21⟩⟩, ⟨.int "3", ⟨22, 23⟩⟩, ⟨14, 23⟩⟩], ⟨0, 24⟩⟩ =
      some (.array [.object [("_type_", .string "Int"), ("_value_", .number (.integer 3))]]) := by
  have hliteral : (countsRegistry none).Variants .ofLiteral (countsRegistry (some .ofLiteral)) :=
    .cons (variants_withLiterals countsUnion _) .nil
  have hvalue : (countsRegistry none).Variants .ofValue (countsRegistry (some .ofValue)) :=
    .cons (variants_withValues countsUnion _) .nil
  rw [← (outcomes_of_variants _ _ _ _).1 hliteral (.refl _),
    ← (outcomes_of_variants _ _ _ _).2 hvalue (.refl _)]
  constructor <;> cbv

end TaggedUnion
