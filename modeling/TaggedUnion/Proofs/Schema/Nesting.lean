import TaggedUnion.Proofs.Schema.Evolution
import TaggedUnion.Proofs.Union.WrapperLiteral

/-!
# Unions of unions

A union may be a candidate of another one. Where both wrap their candidates, a value of the outer
union is a wrapper with a wrapper in it, to any depth.

* `Document.Nests`: a union that leads down to a type through other unions.
* `Json.nested`, `Literal.Node.Nested`: a payload in one wrapper for each of them.
* `parseValue_wrapped`, `parseLiteral_wrapped`: what one union makes of one wrapper.
* `parse_nested`: what the outermost union makes of the whole.
-/

namespace TaggedUnion

/-- A payload in wrappers, the outermost first. -/
def Json.nested (tags : List String) (payload : Json) : Json :=
  tags.foldr Json.wrapped payload

/-- A literal in wrappers with quoted tags, the outermost first. -/
inductive Literal.Node.Nested (payload : Literal.Node) : List String → Literal.Node → Prop where
  | nil : Nested payload [] payload
  | cons {tag : String} {tags : List String} {node : Literal.Node} {first second : Literal.Field}
    (hnode : node.IsWrapper first second []) (htag : first.value.value = .string tag)
    (hinner : Nested payload tags second.value) : Nested payload (tag :: tags) node

/-- What is in at least one wrapper is an object. -/
theorem Json.isTruthy_nested {tags : List String} {payload : Json} (h : tags ≠ []) :
    (nested tags payload).isTruthy := by
  cases tags with
  | nil => exact absurd rfl h
  | cons tag tags => rfl

theorem Literal.Node.Nested.value_ne_null {tags : List String} {payload node : Literal.Node}
    (h : payload.Nested tags node) (htags : tags ≠ []) : node.value ≠ .null := by
  cases h with
  | nil => exact absurd rfl htags
  | cons hnode => exact hnode.value_ne_null

namespace UnionType.Wraps

variable {registry : Registry} {union : UnionType} {listed : List (String × NamedType)}
  {key : String} {type : NamedType}

/-! ## One wrapper -/

theorem parseValue_wrapped (h : union.Wraps listed) (hkey : key ≠ "")
    (hmem : (key, type) ∈ listed) {payload out : Json} :
    union.parseValue registry (.wrapped key payload) = .ok out ↔
      out = .wrapped key payload ∧ payload.isTruthy ∧
        ∃ result, (InputType.named type).coerce registry payload = .ok result := by
  have hpayload : (Json.wrapped key payload).member? valueField = some payload := rfl
  by_cases htruthy : payload.isTruthy
  · have hvalue : (Json.wrapped key payload).IsWrapper (.string key) payload :=
      ⟨rfl, by simpa [Json.isTruthy] using hkey, hpayload, htruthy⟩
    have hnames : ∀ name, ((Json.wrapped key payload).member? name).isSome →
        name = typeField ∨ name = valueField := by
      intro name
      simp [Json.wrapped, Json.member?, List.lookup_isSome_iff]
    rw [h.parseValue_eq_ok_iff hvalue hmem]
    refine and_congr_right fun _ => ⟨?_, ?_⟩
    · rintro ⟨-, -, hresult⟩
      exact ⟨htruthy, hresult⟩
    · rintro ⟨-, hresult⟩
      exact ⟨⟨key, rfl⟩, hnames, hresult⟩
  · have hmalformed : ¬∃ tag member, (Json.wrapped key payload).IsWrapper tag member := by
      rintro ⟨tag, member, hvalue⟩
      obtain rfl := Option.some.inj (hpayload.symm.trans hvalue.member_payload)
      exact htruthy hvalue.truthy_payload
    rw [h.parseValue_malformed hmalformed]
    simp [htruthy]

theorem parseLiteral_wrapped (h : union.Wraps listed) (hliteral : union.typeOfLiteral = none)
    {source : Source} {node : Literal.Node} {tag payload : Literal.Field}
    (hnode : node.IsWrapper tag payload []) (htag : tag.value.value = .string key)
    (hmem : (key, type) ∈ listed) {out : Json} :
    union.parseLiteral registry source node = .ok out ↔
      ∃ value, (InputType.named type).convert registry source payload.value = some value ∧
        out = .wrapped key value := by
  have hkey : tag.value.key? = some key := by simp [Literal.Node.key?, htag]
  have htype : union.typeOfNode source node = .ok (.object (wrapperOf key type)) :=
    (h.typeOfNode_eq hliteral hnode hkey).trans (h.resolve_known hmem)
  rw [parseLiteral_eq_ok_iff]
  simp only [htype, Except.ok.injEq, exists_eq_left', convert_wrapperOf hnode, convert_string htag]
  simp [Json.wrapped, eq_comm]

end UnionType.Wraps

/-- A value that an object type takes is null or an object. -/
theorem isTruthy_iff_of_coerce {registry : Registry} {object : ObjectType} {value out : Json}
    (h : (InputType.named (.object object)).coerce registry value = .ok out) :
    value.isTruthy ↔ value ≠ .null := by
  constructor
  · exact Json.ne_null_of_isTruthy
  · intro hnull
    cases value with
    | object members => rfl
    | null => exact absurd rfl hnull
    | _ => cases (coerce_not_object hnull nofun).symm.trans h

namespace Document

/-! ## Unions that are built -/

section Built

variable {schema : Schema} {declaration : UnionDef} {types : List NamedType}

theorem Resolves.mem_zip {pairs : List (String × String)}
    (h : Resolves schema (pairs.map Prod.snd) types) {key name : String} {type : NamedType}
    (hmem : (key, name) ∈ pairs) (hget : schema.registry.get? name = some type) :
    (key, type) ∈ (pairs.map Prod.fst).zip types := by
  induction pairs generalizing types with
  | nil => simp at hmem
  | cons pair rest ih =>
    obtain ⟨first, others, hfirst, hothers, rfl⟩ := List.forall₂_cons_left_iff.mp h
    rw [List.map_cons, List.zip_cons_cons, List.mem_cons]
    rcases List.mem_cons.mp hmem with rfl | hrest
    · cases hfirst.symm.trans hget
      exact .inl rfl
    · exact .inr (ih hothers hrest)

/-- A union without a type key wraps what its candidates stand for. -/
theorem Built.wraps (h : Built schema declaration types) (hkey : declaration.typeKey = none) :
    (declaration.unionOf types).Wraps (declaration.inputTypes.keys.zip types) where
  typeKey := hkey
  keyOfValue := rfl
  keys := by
    rw [List.map_fst_zip (CandidateNames.length_keys h.resolves.map_name).le]
    exact h.keys
  lookup := by simp [UnionDef.unionOf, hkey]

theorem Built.mem_zip (h : Built schema declaration types) {key name : String} {type : NamedType}
    (hmem : (key, name) ∈ declaration.inputTypes.pairs)
    (hget : schema.registry.get? name = some type) :
    (key, type) ∈ declaration.inputTypes.keys.zip types := by
  have hresolves := h.resolves
  rw [← CandidateNames.map_snd_pairs] at hresolves
  rw [← CandidateNames.map_fst_pairs]
  exact hresolves.mem_zip hmem hget

end Built

/-! ## Any depth -/

/-- A union leads down to a type through unions that list each other by name, none of which has a
type key. The names on the way are given from the outside in. -/
inductive Nests (document : Document) (name : String) : List String → UnionDef → Prop where
  | listed {union : UnionDef} (hmem : .union union ∈ document.types) (hkey : union.typeKey = none)
    (hlisted : (name, name) ∈ union.inputTypes.pairs) : Nests document name [name] union
  | outer {tags : List String} {inner outer : UnionDef} (hinner : Nests document name tags inner)
    (hmem : .union outer ∈ document.types) (hkey : outer.typeKey = none)
    (hlisted : (inner.name, inner.name) ∈ outer.inputTypes.pairs) :
    Nests document name (inner.name :: tags) outer

namespace Nests

variable {document : Document} {name : String} {tags : List String} {outer : UnionDef}

theorem declared (h : Nests document name tags outer) : .union outer ∈ document.types := by
  cases h <;> assumption

theorem tags_ne_nil (h : Nests document name tags outer) : tags ≠ [] := by
  cases h <;> simp

end Nests

theorem name_ne_empty {document : Document} {schema : Schema}
    (hbuild : document.build = .ok schema) {declaration : TypeDef}
    (hmem : declaration ∈ document.types) : declaration.name ≠ "" := by
  intro hempty
  have hname := (wellFormed_of_build hbuild).name declaration hmem
  rw [hempty] at hname
  exact absurd hname (by decide)

/-- A union takes a payload in wrappers exactly if an object type takes the payload. Of a runtime
value everything is kept, of a literal the wrappers. A runtime payload must not be null. -/
structure Unwraps (registry : Registry) (union : UnionType) (object : ObjectType)
    (tags : List String) : Prop where
  value : ∀ payload out, union.parseValue registry (.nested tags payload) = .ok out ↔
    out = .nested tags payload ∧ payload ≠ .null ∧
      ∃ result, (InputType.named (.object object)).coerce registry payload = .ok result
  literal : ∀ source payload node, Literal.Node.Nested payload tags node → ∀ out,
    union.parseLiteral registry source node = .ok out ↔
      ∃ value, (InputType.named (.object object)).convert registry source payload = some value ∧
        out = .nested tags value

section Levels

variable {registry : Registry} {union : UnionType} {listed : List (String × NamedType)}
  {object : ObjectType} {key : String}

/-- The innermost union takes what the object type takes, in one wrapper. -/
theorem unwraps_listed (h : union.Wraps listed) (hliteral : union.typeOfLiteral = none)
    (hkey : key ≠ "") (hmem : (key, .object object) ∈ listed) :
    Unwraps registry union object [key] where
  value := by
    intro payload out
    have hwrapped : Json.nested [key] payload = .wrapped key payload := rfl
    rw [hwrapped, h.parseValue_wrapped hkey hmem]
    refine and_congr_right fun _ => and_congr_left ?_
    rintro ⟨result, hresult⟩
    exact isTruthy_iff_of_coerce hresult
  literal := by
    intro source payload node hnode out
    cases hnode with
    | cons hnode htag hinner =>
      cases hinner
      exact h.parseLiteral_wrapped hliteral hnode htag hmem

/-- A union that lists another one takes what that one takes, in one more wrapper. -/
theorem Unwraps.outer {inner : UnionType} {tags : List String}
    (hinner : Unwraps registry inner object tags) (htags : tags ≠ []) (h : union.Wraps listed)
    (hliteral : union.typeOfLiteral = none) (hkey : key ≠ "")
    (hmem : (key, .union inner) ∈ listed) : Unwraps registry union object (key :: tags) where
  value := by
    intro payload out
    -- The payload is a wrapper itself, so it counts as present whatever is in it.
    have htruthy : (Json.nested tags payload).isTruthy := Json.isTruthy_nested htags
    have hwrapped : Json.nested (key :: tags) payload = .wrapped key (.nested tags payload) := rfl
    rw [hwrapped, h.parseValue_wrapped hkey hmem, coerce_union (Json.ne_null_of_isTruthy htruthy)]
    simp only [mapError_eq_ok, hinner.value, htruthy, true_and, exists_eq_left]
  literal := by
    intro source payload node hnode out
    cases hnode with
    | cons hnode htag hnested =>
      rw [h.parseLiteral_wrapped hliteral hnode htag hmem,
        convert_union (hnested.value_ne_null htags)]
      simp only [toOption_eq_some, hinner.literal source payload _ hnested]
      constructor
      · rintro ⟨_, ⟨value, hvalue, rfl⟩, rfl⟩
        exact ⟨value, hvalue, rfl⟩
      · rintro ⟨value, hvalue, rfl⟩
        exact ⟨_, ⟨value, hvalue, rfl⟩, rfl⟩

end Levels

/-- A union of a document takes what it leads down to. -/
theorem unwraps_of_nests {document : Document} {schema : Schema}
    (hbuild : document.build = .ok schema) {name : String} {object : ObjectType}
    (hget : schema.registry.get? name = some (.object object)) (hname : name ≠ "")
    {tags : List String} {outer : UnionDef} (h : document.Nests name tags outer) :
    ∃ union, schema.registry.get? outer.name = some (.union union) ∧
      schema.union? outer.name = some union ∧ Unwraps schema.registry union object tags := by
  induction h with
  | listed hmem hkey hlisted =>
    obtain ⟨types, hbuilt⟩ := built_of_build hbuild hmem
    exact ⟨_, hbuilt.registered, hbuilt.known,
      unwraps_listed (hbuilt.wraps hkey) rfl hname (hbuilt.mem_zip hlisted hget)⟩
  | outer hinner hmem hkey hlisted ih =>
    -- The inner union is registered, so it is what its name stands for among the candidates.
    obtain ⟨inner, hregistered, -, hunwraps⟩ := ih
    obtain ⟨types, hbuilt⟩ := built_of_build hbuild hmem
    exact ⟨_, hbuilt.registered, hbuilt.known,
      hunwraps.outer hinner.tags_ne_nil (hbuilt.wraps hkey) rfl
        (name_ne_empty hbuild hinner.declared) (hbuilt.mem_zip hlisted hregistered)⟩

/-- **Unions of unions work at every depth.** Let a union of a document list an object type, another
one list that union, and so on, none of them with a type key. The outermost union takes a runtime
value with a wrapper for each of them exactly if its payload is not null and the object type takes
it, and gives it back as it is. It takes a literal with such wrappers exactly if the payload
converts under the object type, and gives what it converts to in the same wrappers. -/
theorem parse_nested {document : Document} {schema : Schema}
    (hbuild : document.build = .ok schema) {declaration : ObjectDef}
    (hmem : .object declaration ∈ document.types) {tags : List String} {outer : UnionDef}
    (h : document.Nests declaration.name tags outer) :
    ∃ object union, schema.registry.get? declaration.name = some (.object object) ∧
      schema.union? outer.name = some union ∧
        (∀ payload out, union.parseValue schema.registry (.nested tags payload) = .ok out ↔
          out = .nested tags payload ∧ payload ≠ .null ∧ ∃ result,
            (InputType.named (.object object)).coerce schema.registry payload = .ok result) ∧
        ∀ source payload node, Literal.Node.Nested payload tags node → ∀ out,
          union.parseLiteral schema.registry source node = .ok out ↔ ∃ value,
            (InputType.named (.object object)).convert schema.registry source payload =
              some value ∧ out = .nested tags value := by
  obtain ⟨object, hobject⟩ := exists_objectType_of_build hbuild hmem
  have hget : schema.registry.get? declaration.name = some (.object object) :=
    get?_of_makesType hbuild hmem (.object hobject)
  obtain ⟨union, -, hknown, hunwraps⟩ :=
    unwraps_of_nests hbuild hget (name_ne_empty hbuild hmem) h
  exact ⟨object, union, hget, hknown, hunwraps.value, hunwraps.literal⟩

/-- A union of a union of counts. -/
def countDocument : Document :=
  ⟨[.union ⟨"V", none, none, .byName ["U"]⟩,
    .union ⟨"U", none, none, .byName ["Int", "C"]⟩,
    .object ⟨"C", none, [("n", ⟨"Int", none, none⟩)]⟩]⟩

/-- The schema of counts. -/
def countSchema : Schema :=
  let count : NamedType := .object ⟨"C", none, [⟨"n", .reference "Int", none, none⟩]⟩
  let inner := UnionDef.unionOf ⟨"U", none, none, .byName ["Int", "C"]⟩ [.builtin .int, count]
  let outer := UnionDef.unionOf ⟨"V", none, none, .byName ["U"]⟩ [.union inner]
  ⟨⟨Builtin.all.map .builtin ++ [count, .union inner, .union outer]⟩, [inner, outer]⟩

theorem build_countDocument : countDocument.build = .ok countSchema := by
  cbv

/-- A count is taken in both wrappers. -/
theorem parse_nested_count : ∃ union, countSchema.union? "V" = some union ∧
    union.parseValue countSchema.registry
        (.nested ["U", "C"] (.object [("n", .number (.integer 1))])) =
      .ok (.nested ["U", "C"] (.object [("n", .number (.integer 1))])) := by
  have hdeclared : .object ⟨"C", none, [("n", ⟨"Int", none, none⟩)]⟩ ∈ countDocument.types := by
    simp [countDocument]
  have hnests : countDocument.Nests "C" ["U", "C"] ⟨"V", none, none, .byName ["U"]⟩ :=
    .outer (.listed (List.mem_cons_of_mem _ List.mem_cons_self) rfl (by decide))
      List.mem_cons_self rfl (by decide)
  obtain ⟨object, union, hobject, hunion, hvalue, -⟩ :=
    parse_nested build_countDocument hdeclared hnests
  obtain rfl : (⟨"C", none, [⟨"n", .reference "Int", none, none⟩]⟩ : ObjectType) = object :=
    NamedType.object.inj (Option.some.inj hobject)
  have hcount : ∃ result, (InputType.named (.object
      ⟨"C", none, [⟨"n", .reference "Int", none, none⟩]⟩)).coerce countSchema.registry
        (.object [("n", .number (.integer 1))]) = .ok result := by
    refine ⟨.object [("n", .number (.integer 1))], ?_⟩
    cbv
  exact ⟨union, hunion, (hvalue _ _).mpr ⟨rfl, by simp, hcount⟩⟩

end Document

end TaggedUnion
