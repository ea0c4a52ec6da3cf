import TaggedUnion.Proofs.Coercion.ReadBack
import TaggedUnion.Proofs.Union.Wrapping

/-!
# Literals in a wrapper

A union without a type key takes its literals as objects with the fields `_type_` and `_value_` in
front. The tag is read twice: it names the candidate, and it is converted as a field of the wrapper
of the candidate. Names a candidate may a string or a bare name, but converted is a string only.

* `Literal.Node.IsWrapper`: the literals that have both fields in front.
* `Json.wrapped`: the value that they become.
* `convert_wrapperOf`: what the wrapper of a candidate makes of a literal.
* `parseLiteral_bare`: a bare tag is refused wherever a quoted one is accepted.
-/

namespace TaggedUnion

/-- An object literal with the two fields of a wrapper in front, in order. -/
structure Literal.Node.IsWrapper (node : Literal.Node) (tag payload : Literal.Field)
    (rest : List Literal.Field) : Prop where
  value_eq : node.value = .object (tag :: payload :: rest)
  tag_name : tag.name.text = typeField
  payload_name : payload.name.text = valueField

/-- A payload in its wrapper. -/
def Json.wrapped (tag : String) (payload : Json) : Json :=
  .object [(typeField, .string tag), (valueField, payload)]

section

variable {registry : Registry} {source : Source} {node : Literal.Node}
  {tag payload : Literal.Field} {rest : List Literal.Field}

/-! ## The wrapper -/

namespace Literal.Node.IsWrapper

theorem wrapperKey?_eq (h : node.IsWrapper tag payload rest) :
    UnionType.wrapperKey? node = tag.value.key? := by
  simp [UnionType.wrapperKey?, fields?, h.value_eq, h.tag_name, h.payload_name]

theorem value_ne_null (h : node.IsWrapper tag payload rest) : node.value ≠ .null := by
  simp [h.value_eq]

end Literal.Node.IsWrapper

theorem convert_string {text : String} (h : node.value = .string text) :
    (InputType.named (.builtin .string)).convert registry source node = some (.string text) := by
  rw [convert_builtin (by simp [h]), Builtin.parseLiteral, h]
  rfl

theorem convert_string_eq_none {name : String} (h : node.value = .enum name) :
    (InputType.named (.builtin .string)).convert registry source node = none := by
  rw [convert_builtin (by simp [h]), Builtin.parseLiteral, h]
  rfl

/-- **What a wrapper makes of a literal**: the fields are converted one by one, the tag as a string,
and there must not be others. -/
theorem convert_wrapperOf {key : String} {type : NamedType} (h : node.IsWrapper tag payload rest) :
    (InputType.named (.object (wrapperOf key type))).convert registry source node =
      if rest.all fun field => field.name.text = typeField ∨ field.name.text = valueField then
        ((InputType.named (.builtin .string)).convert registry source tag.value).bind fun text =>
          ((InputType.named type).convert registry source payload.value).map fun value =>
            .object [(typeField, text), (valueField, value)]
      else none := by
  have hdeclared : ∀ name, ((wrapperOf key type).field? name).isSome =
      decide (name = typeField ∨ name = valueField) := by
    intro name
    rw [Bool.eq_iff_iff, ObjectType.field?, List.find?_isSome]
    simp [wrapperOf, eq_comm (b := name)]
  have hnames : valueField ≠ typeField := by decide
  -- Of fields with one name the first counts, so the two in front are the ones that are converted.
  have htag : convertField registry source (tag :: payload :: rest)
      ⟨typeField, .named (.builtin .string), none, none⟩ =
        ((InputType.named (.builtin .string)).convert registry source tag.value).map
          fun text => [(typeField, text)] := by
    simp [convertField, h.tag_name]
  have hpayload : convertField registry source (tag :: payload :: rest)
      ⟨valueField, .named type, none, none⟩ =
        ((InputType.named type).convert registry source payload.value).map
          fun value => [(valueField, value)] := by
    simp [convertField, h.tag_name, h.payload_name, hnames.symm]
  rw [convert_object h.value_eq]
  simp only [hdeclared, List.all_cons, h.tag_name, h.payload_name]
  simp only [wrapperOf, convertFields_cons, convertFields_nil, htag, hpayload]
  cases (InputType.named (.builtin .string)).convert registry source tag.value with
  | none => simp
  | some text =>
    cases (InputType.named type).convert registry source payload.value with
    | none => simp
    | some value => simp

/-! ## Outcomes -/

namespace UnionType.Wraps

variable {union : UnionType} {listed : List (String × NamedType)} {key : String}

theorem typeOfNode_eq (h : union.Wraps listed) (hliteral : union.typeOfLiteral = none)
    (hnode : node.IsWrapper tag payload rest) (hkey : tag.value.key? = some key) :
    union.typeOfNode source node = union.lookup.resolve union.name key := by
  simp [typeOfNode, literalTarget, hliteral, h.typeKey, hnode.wrapperKey?_eq, hkey]

theorem parseLiteral_unknown (h : union.Wraps listed) (hliteral : union.typeOfLiteral = none)
    (hnode : node.IsWrapper tag payload rest) (hkey : tag.value.key? = some key)
    (hunknown : key ∉ listed.map Prod.fst) : union.parseLiteral registry source node =
      .error (.unknownDiscriminatorValue union.name key (listed.map Prod.fst)) := by
  refine parseLiteral_of_typeOfNode_error ?_
  rw [h.typeOfNode_eq hliteral hnode hkey, h.resolve_unknown hunknown]

theorem parseLiteral_known (h : union.Wraps listed) (hliteral : union.typeOfLiteral = none)
    (hnode : node.IsWrapper tag payload rest) (hkey : tag.value.key? = some key)
    {type : NamedType} (hmem : (key, type) ∈ listed) : union.parseLiteral registry source node =
      gateLiteral union.name registry source node (.named (.object (wrapperOf key type))) := by
  refine parseLiteral_of_typeOfNode ?_
  rw [h.typeOfNode_eq hliteral hnode hkey, h.resolve_known hmem]

/-- A tag that is a bare name is not the string that the wrapper asks for. -/
theorem parseLiteral_bare_known (h : union.Wraps listed) (hliteral : union.typeOfLiteral = none)
    (hnode : node.IsWrapper tag payload rest) (htag : tag.value.value = .enum key)
    {type : NamedType} (hmem : (key, type) ∈ listed) : union.parseLiteral registry source node =
      .error (.literalTypeMismatch union.name key (source.slice node.span)) := by
  have hkey : tag.value.key? = some key := by simp [Literal.Node.key?, htag]
  have hnone : (InputType.named (.object (wrapperOf key type))).convert registry source node =
      none := by
    simp [convert_wrapperOf hnode, convert_string_eq_none htag]
  rw [h.parseLiteral_known hliteral hnode hkey hmem, gateLiteral, hnone]
  rfl

end UnionType.Wraps

theorem gateLiteral_eq_error {union : String} {type : InputType} {error : UnionError}
    (h : gateLiteral union registry source node type = .error error) :
    error = .literalTypeMismatch union type.text (source.slice node.span) := by
  unfold gateLiteral at h
  split at h
  · simp at h
  · exact (Except.error.inj h).symm

theorem typeOfLiteral_of_build {config : UnionConfig} {union : UnionType}
    (hbuild : config.build = .ok union) : union.typeOfLiteral = config.resolveTypeFromLiteral := by
  unfold UnionConfig.build at hbuild
  split at hbuild
  · simp at hbuild
  · obtain ⟨_, -, rfl⟩ := map_eq_ok.mp hbuild
    rfl

end

/-- **A bare tag is refused wherever a quoted one is accepted.** Let a union have listed candidates
and neither a type key nor functions, and let two literals have the same tag in front, one of them
quoted and the other one bare. A tag that is not listed is refused in both, as unknown. Under a tag
that is listed the bare literal is always refused, because the wrapper asks for a string; so is the
quoted one, if it is refused at all. Therefore the outcomes are of one kind exactly if the quoted
literal is refused. -/
theorem parseLiteral_bare {config : UnionConfig} {candidates : Candidates} {union : UnionType}
    (hbuild : config.build = .ok union) (hkey : config.typeKey = none)
    (hcandidates : config.inputTypes = some candidates) (htypes : config.resolveType = none)
    (hvalues : config.resolveTypeFromValue = none)
    (hliterals : config.resolveTypeFromLiteral = none) (registry : Registry) {key : String}
    {source source' : Source} {quoted bare : Literal.Node}
    {tag payload tag' payload' : Literal.Field} {rest rest' : List Literal.Field}
    (hquoted : quoted.IsWrapper tag payload rest) (htag : tag.value.value = .string key)
    (hbare : bare.IsWrapper tag' payload' rest') (htag' : tag'.value.value = .enum key) :
    (key ∉ candidates.listed.map Prod.fst →
      union.parseLiteral registry source quoted = .error (.unknownDiscriminatorValue union.name key
          (candidates.listed.map Prod.fst)) ∧
        union.parseLiteral registry source' bare = .error (.unknownDiscriminatorValue union.name key
          (candidates.listed.map Prod.fst))) ∧
    (key ∈ candidates.listed.map Prod.fst →
      union.parseLiteral registry source' bare =
          .error (.literalTypeMismatch union.name key (source'.slice bare.span)) ∧
        ∀ error, union.parseLiteral registry source quoted = .error error →
          error = .literalTypeMismatch union.name key (source.slice quoted.span)) ∧
    ((union.parseLiteral registry source' bare).mapError UnionError.kind =
        (union.parseLiteral registry source quoted).mapError UnionError.kind ↔
      ∀ out, union.parseLiteral registry source quoted ≠ .ok out) := by
  obtain ⟨listed, hlisted, hwraps⟩ := wraps_of_build hbuild hkey hcandidates htypes hvalues
  have hliteral := (typeOfLiteral_of_build hbuild).trans hliterals
  have hquotedKey : tag.value.key? = some key := by simp [Literal.Node.key?, htag]
  have hbareKey : tag'.value.key? = some key := by simp [Literal.Node.key?, htag']
  have hkeys : candidates.listed.map Prod.fst = listed.map Prod.fst := by
    rw [hlisted, List.map_map]
    rfl
  rw [hkeys]
  have hunknown : key ∉ listed.map Prod.fst →
      union.parseLiteral registry source quoted =
          .error (.unknownDiscriminatorValue union.name key (listed.map Prod.fst)) ∧
        union.parseLiteral registry source' bare =
          .error (.unknownDiscriminatorValue union.name key (listed.map Prod.fst)) := fun h =>
    ⟨hwraps.parseLiteral_unknown hliteral hquoted hquotedKey h,
      hwraps.parseLiteral_unknown hliteral hbare hbareKey h⟩
  have hknown : key ∈ listed.map Prod.fst →
      union.parseLiteral registry source' bare =
          .error (.literalTypeMismatch union.name key (source'.slice bare.span)) ∧
        ∀ error, union.parseLiteral registry source quoted = .error error →
          error = .literalTypeMismatch union.name key (source.slice quoted.span) := by
    intro h
    obtain ⟨⟨_, type⟩, hmem, rfl⟩ := List.mem_map.mp h
    refine ⟨hwraps.parseLiteral_bare_known hliteral hbare htag' hmem, fun error herror => ?_⟩
    rw [hwraps.parseLiteral_known hliteral hquoted hquotedKey hmem] at herror
    exact gateLiteral_eq_error herror
  refine ⟨hunknown, hknown, ?_⟩
  by_cases hmem : key ∈ listed.map Prod.fst
  · obtain ⟨hrefused, hquotedError⟩ := hknown hmem
    rw [hrefused]
    cases hparse : union.parseLiteral registry source quoted with
    | ok out => simp [Except.mapError]
    | error error =>
      obtain rfl := hquotedError error hparse
      simp [Except.mapError, UnionError.kind]
  · obtain ⟨hquotedError, hbareError⟩ := hunknown hmem
    rw [hquotedError, hbareError]
    simp

/-! ## A bare tag -/

/-- A wrapped string with a bare tag, as it is written in a text. -/
def bareNode : Literal.Node :=
  ⟨.object
    [⟨⟨"_type_", ⟨1, 7⟩⟩, ⟨.enum "String", ⟨8, 14⟩⟩, ⟨1, 14⟩⟩,
      ⟨⟨"_value_", ⟨15, 22⟩⟩, ⟨.string "x", ⟨23, 26⟩⟩, ⟨15, 26⟩⟩], ⟨0, 27⟩⟩

theorem isWrapper_wrappedNode : wrappedNode.IsWrapper
    ⟨⟨"_type_", ⟨1, 7⟩⟩, ⟨.string "String", ⟨8, 16⟩⟩, ⟨1, 16⟩⟩
    ⟨⟨"_value_", ⟨17, 24⟩⟩, ⟨.string "x", ⟨25, 28⟩⟩, ⟨17, 28⟩⟩ [] :=
  ⟨rfl, rfl, rfl⟩

theorem isWrapper_bareNode : bareNode.IsWrapper
    ⟨⟨"_type_", ⟨1, 7⟩⟩, ⟨.enum "String", ⟨8, 14⟩⟩, ⟨1, 14⟩⟩
    ⟨⟨"_value_", ⟨15, 22⟩⟩, ⟨.string "x", ⟨23, 26⟩⟩, ⟨15, 26⟩⟩ [] :=
  ⟨rfl, rfl, rfl⟩

theorem parseLiteral_bare_wrapped :
    (wrappedStrings.unionOf [.builtin .string]).parseLiteral .builtins
        ⟨"input", "\x7b_type_:String,_value_:\"x\"\x7d"⟩ bareNode =
      .error (.literalTypeMismatch "u" "String" "\x7b_type_:String,_value_:\"x\"\x7d") := by
  have hbuild : UnionConfig.build
      { name := "u", inputTypes := some (.byName [.named (.builtin .string)]) } =
        .ok (wrappedStrings.unionOf [.builtin .string]) := by
    cbv
  have houtcome := @parseLiteral_bare _ _ _ hbuild rfl rfl rfl rfl rfl .builtins "String" ⟨"", ""⟩
    ⟨"input", "\x7b_type_:String,_value_:\"x\"\x7d"⟩ _ _ _ _ _ _ _ _ isWrapper_wrappedNode rfl
    isWrapper_bareNode rfl
  exact (houtcome.2.1 (by decide)).1

/-- The quoted string is accepted, and the bare name in its place is not. -/
theorem not_parseLiteral_bare : ¬∀ (document : Document) (schema : Schema) (union : UnionType)
    (key after : String) (quoted bare : Literal.Node) (tag payload : Literal.Field)
    (rest : List Literal.Field),
    document.build = .ok schema → union ∈ schema.unions → union.typeKey = none →
      Text.isName key → key ∉ ["true", "false", "null"] →
        Literal.parse ("\x7b_type_:\"" ++ key ++ "\"" ++ after) = .ok quoted →
          quoted.IsWrapper tag payload rest → tag.value.value = .string key →
            Literal.parse ("\x7b_type_:" ++ key ++ after) = .ok bare →
              (union.parseLiteral schema.registry
                  ⟨"input", "\x7b_type_:" ++ key ++ after⟩ bare).mapError UnionError.kind =
                (union.parseLiteral schema.registry
                  ⟨"input", "\x7b_type_:\"" ++ key ++ "\"" ++ after⟩ quoted).mapError
                    UnionError.kind := by
  intro h
  have hsame := h ⟨[.union wrappedStrings]⟩ wrappedSchema
    (wrappedStrings.unionOf [.builtin .string]) "String" ",_value_:\"x\"\x7d" wrappedNode bareNode
    _ _ _ build_wrappedStrings (List.mem_singleton.mpr rfl) rfl (by decide) (by decide) (by cbv)
    isWrapper_wrappedNode rfl (by cbv)
  have hquoted : (wrappedStrings.unionOf [.builtin .string]).parseLiteral wrappedSchema.registry
      ⟨"input", "\x7b_type_:\"String\",_value_:\"x\"\x7d"⟩ wrappedNode = .ok wrappedValue := by
    cbv
  have hbare : (wrappedStrings.unionOf [.builtin .string]).parseLiteral wrappedSchema.registry
      ⟨"input", "\x7b_type_:String,_value_:\"x\"\x7d"⟩ bareNode =
        .error (.literalTypeMismatch "u" "String" "\x7b_type_:String,_value_:\"x\"\x7d") := by
    cbv
  simp [hquoted, hbare, Except.mapError] at hsame

end TaggedUnion
