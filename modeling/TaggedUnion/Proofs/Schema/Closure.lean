import TaggedUnion.Proofs.Coercion.Lookup
import TaggedUnion.Proofs.Coercion.ReadBack

/-!
# Schemas are closed

The references of a document are looked at once, when all its unions are built. By then types have
long been copied into wrappers and into the tables of unions. Still nothing can be reached later
that the look did not cover: every table holds registered types and wrappers of them, and every
field of a registered object is a declared one.

* `InputType.Step`, `InputType.LeadsTo`: the types that a type leads to, through unions too.
* `Registry.Covers`, `Registry.Closed`: what registered types lead to, and that no step leaves it.
* `closed_of_build`: the registry of a document is closed.
* `Checks`: the types and values that the check of a value gets to.
* `bound_of_build`: no name is unknown when it is looked up.
* `coerce_of_more_types`, `convert_of_more_types`: more types in the registry change nothing.
-/

namespace TaggedUnion

/-! ## Steps -/

/-- The types that a union can choose: what its lookup finds under a key, or what its function for
literals answers with. -/
def UnionType.Offers (union : UnionType) (type : NamedType) : Prop :=
  (∃ key, union.lookup.Finds key type) ∨
    ∃ typeOfLiteral node,
      union.typeOfLiteral = some typeOfLiteral ∧ typeOfLiteral node = some (.named type)

/-- What a type leads to at once. -/
inductive InputType.Step (registry : Registry) : InputType → InputType → Prop where
  | item {item : InputType} : Step registry (.list item) item
  | inner {inner : InputType} : Step registry (.nonNull inner) inner
  | target {name : String} {type : NamedType} (hget : registry.get? name = some type) :
    Step registry (.reference name) (.named type)
  | field {object : ObjectType} {field : Field} (hmem : field ∈ object.fields) :
    Step registry (.named (.object object)) field.type
  | candidate {union : UnionType} {type : NamedType} (hoffers : union.Offers type) :
    Step registry (.named (.union union)) (.named type)

/-- What a type leads to. -/
def InputType.LeadsTo (registry : Registry) : InputType → InputType → Prop :=
  Relation.ReflTransGen (InputType.Step registry)

/-! ## Closed registries -/

/-- Types made of registered types: wrappers of them, and lists and non-null types of what is
covered or stands under a bound name. -/
inductive Registry.Covers (registry : Registry) : InputType → Prop where
  | registered {type : NamedType} (hmem : type ∈ registry.types) : Covers registry (.named type)
  | builtin {scalar : Builtin} : Covers registry (.named (.builtin scalar))
  | wrapper {key : String} {payload : NamedType} (hmem : payload ∈ registry.types) :
    Covers registry (.named (.object (wrapperOf key payload)))
  | list {item : InputType} (hitem : Covers registry item) : Covers registry (.list item)
  | nonNull {inner : InputType} (hinner : Covers registry inner) :
    Covers registry (.nonNull inner)
  | reference {name : String} {type : NamedType} (hget : registry.get? name = some type) :
    Covers registry (.reference name)

/-- Registered objects and unions lead to covered types. -/
structure Registry.Closed (registry : Registry) : Prop where
  fields : ∀ object, .object object ∈ registry.types → ∀ field ∈ object.fields,
    registry.Covers field.type
  candidates : ∀ union, .union union ∈ registry.types → ∀ type, union.Offers type →
    registry.Covers (.named type)

namespace Registry

variable {registry : Registry} {type type' : InputType}

/-- No step leaves what is covered. -/
theorem Closed.step (h : registry.Closed) (hcovers : registry.Covers type)
    (hstep : type.Step registry type') : registry.Covers type' := by
  cases hcovers with
  | registered hmem =>
    cases hstep with
    | field hfield => exact h.fields _ hmem _ hfield
    | candidate hoffers => exact h.candidates _ hmem _ hoffers
  | builtin => cases hstep
  | wrapper hmem =>
    cases hstep with
    | field hfield =>
      rcases List.mem_pair.mp hfield with rfl | rfl
      · exact .builtin
      · exact .registered hmem
  | list hitem =>
    cases hstep
    exact hitem
  | nonNull hinner =>
    cases hstep
    exact hinner
  | reference =>
    cases hstep with
    | target hget => exact .registered (Registry.get?_some hget).1

/-- What covered types lead to is covered. -/
theorem Closed.leadsTo (h : registry.Closed) (hcovers : registry.Covers type)
    (hleads : type.LeadsTo registry type') : registry.Covers type' := by
  induction hleads with
  | refl => exact hcovers
  | tail _ hstep ih => exact h.step ih hstep

/-- A covered name is bound. -/
theorem Covers.isSome_get? {name : String} (h : registry.Covers (.reference name)) :
    (registry.get? name).isSome := by
  cases h with
  | reference hget => simp [hget]

end Registry

/-! ## The schema of a document -/

namespace Document

variable {document : Document} {schema schema' : Schema}

/-- Only the unions of declarations are added, each with the types that its names stand for. -/
theorem Grows.mem_types {declared : List UnionDef} (h : Grows declared schema schema')
    {type : NamedType} : type ∈ schema'.registry.types → type ∈ schema.registry.types ∨
      ∃ declaration ∈ declared, ∃ types, Resolves schema' declaration.inputTypes.names types ∧
        type = .union (declaration.unionOf types) := by
  induction h with
  | refl => exact .inl
  | @add grown last types _ hlast htypes _ _ ih =>
    intro hmem
    rcases List.mem_append.mp hmem with hold | hnew
    · refine (ih hold).imp_right fun ⟨declaration, hdeclared, types', htypes', htype⟩ => ?_
      exact ⟨declaration, hdeclared, types', htypes'.imp fun _ _ => get?_withUnion, htype⟩
    · exact .inr ⟨last, hlast, types, htypes.imp fun _ _ => get?_withUnion,
        List.mem_singleton.mp hnew⟩

/-- **What is registered.** The built-in scalars, the objects and enums of the document, and its
unions with the types that their names stand for. -/
theorem registered_of_build (hbuild : document.build = .ok schema) {type : NamedType}
    (hmem : type ∈ schema.registry.types) :
    (∃ scalar, type = .builtin scalar) ∨
      (∃ declaration ∈ document.types, MakesType declaration type) ∨
        ∃ declaration, .union declaration ∈ document.types ∧ ∃ types,
          Resolves schema declaration.inputTypes.names types ∧
            type = .union (declaration.unionOf types) := by
  obtain ⟨_, unions, built, hcollect, -, hensure, -⟩ := build_eq_ok_iff.mp hbuild
  obtain ⟨types, hcollects, rfl, -⟩ := collect_builtins_iff.mp hcollect
  have hgrows := (ensureAll_grows (fun h => ensure_grows h) hensure).1
  rcases hgrows.mem_types hmem with hfirst | ⟨declaration, hdeclared, hunion⟩
  · rcases List.mem_append.mp hfirst with hbuiltin | htype
    · obtain ⟨scalar, -, rfl⟩ := List.mem_map.mp hbuiltin
      exact .inl ⟨scalar, rfl⟩
    · exact .inr (.inl (hcollects.mem_types.mp htype))
  · exact .inr (.inr ⟨declaration, hcollects.mem_unions.mp hdeclared, hunion⟩)

theorem insert_eq_append {union : UnionType} {unions : List UnionType}
    (h : ∀ other ∈ unions, other.name ≠ union.name) :
    Schema.setUnion.insert union unions = unions ++ [union] := by
  induction unions with
  | nil => rfl
  | cons first rest ih =>
    obtain ⟨hfirst, hrest⟩ := List.forall_mem_cons.mp h
    rw [Schema.setUnion.insert, if_neg hfirst, ih hrest, List.cons_append]

/-- The unions that are known by name stay the registered ones. -/
theorem Grows.mem_unions_iff {declared : List UnionDef} (h : Grows declared schema schema')
    (hschema : ∀ union, union ∈ schema.unions ↔ .union union ∈ schema.registry.types)
    {union : UnionType} : union ∈ schema'.unions ↔ .union union ∈ schema'.registry.types := by
  induction h generalizing union with
  | refl => exact hschema union
  | @add grown last types _ _ _ _ hnew ih =>
    have hother : ∀ other ∈ grown.unions, other.name ≠ (last.unionOf types).name := by
      intro other hmem hname
      have hregistered : other.name ∈ grown.registry.names :=
        List.mem_map_of_mem (f := NamedType.name) (ih.mp hmem)
      rw [hname] at hregistered
      exact hnew hregistered
    have hunions : (withUnion grown (last.unionOf types)).unions =
        grown.unions ++ [last.unionOf types] := insert_eq_append hother
    rw [hunions, List.mem_append, List.mem_singleton, ih]
    simp [withUnion]

/-- The unions that are known by name are the registered ones. -/
theorem mem_unions_iff_of_build (hbuild : document.build = .ok schema) {union : UnionType} :
    union ∈ schema.unions ↔ .union union ∈ schema.registry.types := by
  obtain ⟨_, unions, built, hcollect, -, hensure, -⟩ := build_eq_ok_iff.mp hbuild
  obtain ⟨types, hcollects, rfl, -⟩ := collect_builtins_iff.mp hcollect
  refine (ensureAll_grows (fun h => ensure_grows h) hensure).1.mem_unions_iff fun union => ?_
  -- At first there are no unions.
  refine iff_of_false List.not_mem_nil fun hmem => ?_
  rcases List.mem_append.mp hmem with hbuiltin | htype
  · obtain ⟨scalar, -, hscalar⟩ := List.mem_map.mp hbuiltin
    cases hscalar
  · obtain ⟨declaration, -, hmakes⟩ := hcollects.mem_types.mp htype
    cases hmakes

/-- A type that is read from a text is covered if the name inside it is bound. -/
theorem covers_of_parse {registry : Registry} {text : String} {type : InputType}
    (h : InputType.parse text = .ok type) :
    type.innermostName ∈ registry.names → registry.Covers type := by
  refine ofReference_induction
    (P := fun type => type.innermostName ∈ registry.names → registry.Covers type) ?_ ?_ ?_ h
  · intro name hname
    cases hget : registry.get? name with
    | none => exact absurd hname (Registry.get?_eq_none_iff.mp hget)
    | some type => exact .reference hget
  · exact fun _ ih hname => .list (ih hname)
  · exact fun _ ih hname => .nonNull (ih hname)

theorem exists_declared {declared : List (String × FieldDef)} {fields : List Field}
    (h : List.Forall₂ MakesField declared fields) {field : Field} (hmem : field ∈ fields) :
    ∃ first ∈ declared, MakesField first field := by
  induction h with
  | nil => cases hmem
  | cons hfield _ ih =>
    rcases List.mem_cons.mp hmem with rfl | hrest
    · exact ⟨_, List.mem_cons_self, hfield⟩
    · obtain ⟨first, hfirst, hmakes⟩ := ih hrest
      exact ⟨first, List.mem_cons_of_mem _ hfirst, hmakes⟩

/-- The fields of an object are covered once the references are checked. -/
theorem covers_field {registry : Registry}
    (hcheck : document.types.forM (checkReferences registry) = .ok ()) {declaration : ObjectDef}
    (hmem : .object declaration ∈ document.types) {object : ObjectType}
    (hobject : objectType declaration = .ok object) {field : Field}
    (hfield : field ∈ object.fields) : registry.Covers field.type := by
  obtain ⟨-, -, -, hmade⟩ := objectType_eq_ok_iff.mp hobject
  obtain ⟨declared, hdeclared, hmakes⟩ := exists_declared hmade hfield
  obtain ⟨type, htype, hname⟩ :=
    checkReferences_eq_ok_iff.mp hcheck declaration hmem declared hdeclared
  cases hmakes.1.symm.trans htype
  exact covers_of_parse htype hname

/-- The union of a declaration offers what its names stand for, wrapped or not. -/
theorem covers_of_offers {declaration : UnionDef} {names : List String} {types : List NamedType}
    (htypes : Resolves schema names types) {type : NamedType}
    (hoffers : (declaration.unionOf types).Offers type) :
    schema.registry.Covers (.named type) := by
  rcases hoffers with ⟨key, hfind⟩ | ⟨_, _, hnone, -⟩
  · cases hfind with
    | table hentry =>
      obtain ⟨⟨_, payload⟩, hpair, hentry⟩ := List.mem_map.mp (mem_of_lookup hentry)
      cases hentry
      obtain ⟨name, -, hget⟩ := htypes.exists_name (List.of_mem_zip hpair).2
      have hregistered := (Registry.get?_some hget).1
      split
      · exact .wrapper hregistered
      · exact .registered hregistered
  · cases hnone

/-- **The registry of a document is closed.** -/
theorem closed_of_build (hbuild : document.build = .ok schema) : schema.registry.Closed := by
  constructor
  · intro object hmem field hfield
    obtain ⟨_, _, _, -, -, -, hcheck⟩ := build_eq_ok_iff.mp hbuild
    rcases registered_of_build hbuild hmem with
      ⟨_, ⟨⟩⟩ | ⟨declaration, hdeclaration, hmakes⟩ | ⟨_, -, _, -, ⟨⟩⟩
    cases hmakes with
    | object hobject => exact covers_field hcheck hdeclaration hobject hfield
  · intro union hmem type hoffers
    rcases registered_of_build hbuild hmem with
      ⟨_, ⟨⟩⟩ | ⟨_, -, ⟨⟩⟩ | ⟨declaration, -, types, htypes, hunion⟩
    cases hunion
    exact covers_of_offers htypes hoffers

end Document

/-! ## The check and the conversion -/

section

variable {registry : Registry} {source : Source}

/-- The types and values that the check of a value under a type gets to. -/
inductive Checks (registry : Registry) : InputType → Json → InputType → Json → Prop where
  | here {type : InputType} {value : Json} : Checks registry type value type value
  | nonNull {inner type : InputType} {value part : Json} (hnull : value ≠ .null)
    (h : Checks registry inner value type part) : Checks registry (.nonNull inner) value type part
  | reference {name : String} {target : NamedType} {type : InputType} {value part : Json}
    (hget : registry.get? name = some target)
    (h : Checks registry (.named target) value type part) :
    Checks registry (.reference name) value type part
  | item {item type : InputType} {items : List Json} {element part : Json} (hmem : element ∈ items)
    (h : Checks registry item element type part) :
    Checks registry (.list item) (.array items) type part
  | lone {item type : InputType} {value part : Json} (harray : ∀ items, value ≠ .array items)
    (h : Checks registry item value type part) : Checks registry (.list item) value type part
  | field {object : ObjectType} {field : Field} {type : InputType}
    {members : List (String × Json)} {element part : Json} (hmem : field ∈ object.fields)
    (hlookup : members.lookup field.name = some element)
    (h : Checks registry field.type element type part) :
    Checks registry (.named (.object object)) (.object members) type part
  | candidate {union : UnionType} {target : NamedType} {type : InputType} {value part : Json}
    (htype : union.typeOfValue value = .ok target)
    (h : Checks registry (.named target) value type part) :
    Checks registry (.named (.union union)) value type part

theorem offers_of_typeOfValue {union : UnionType} {value : Json} {type : NamedType}
    (h : union.typeOfValue value = .ok type) : union.Offers type := by
  obtain ⟨key, -, hfind⟩ := typeOfValue_eq_ok_iff.mp h
  exact .inl ⟨key, hfind⟩

theorem offers_of_typeOfNode {union : UnionType} {node : Literal.Node} {type : NamedType}
    (h : union.typeOfNode source node = .ok type) : union.Offers type := by
  cases hliteral : union.typeOfLiteral with
  | none =>
    obtain ⟨key, -, hfind⟩ := key_of_typeOfNode hliteral h
    exact .inl ⟨key, hfind⟩
  | some typeOfLiteral =>
    unfold UnionType.typeOfNode UnionType.literalTarget at h
    simp only [hliteral] at h
    cases hanswer : typeOfLiteral node with
    | none => simp [hanswer] at h
    | some target =>
      simp only [hanswer] at h
      obtain rfl := ensureCandidate_eq h
      exact .inr ⟨typeOfLiteral, node, hliteral, hanswer⟩

theorem Checks.leadsTo {type type' : InputType} {value value' : Json}
    (h : Checks registry type value type' value') : type.LeadsTo registry type' := by
  induction h with
  | here => exact .refl
  | nonNull _ _ ih => exact .head .inner ih
  | reference hget _ ih => exact .head (.target hget) ih
  | item _ _ ih => exact .head .item ih
  | lone _ _ ih => exact .head .item ih
  | field hmem _ _ ih => exact .head (.field hmem) ih
  | candidate htype _ ih => exact .head (.candidate (offers_of_typeOfValue htype)) ih

theorem Visits.leadsTo {type type' : InputType} {node node' : Literal.Node}
    (h : Visits registry source type node type' node') : type.LeadsTo registry type' := by
  induction h with
  | here => exact .refl
  | nonNull _ ih => exact .head .inner ih
  | reference hget _ ih => exact .head (.target hget) ih
  | item _ _ _ ih => exact .head .item ih
  | lone _ _ ih => exact .head .item ih
  | field _ hmem _ _ ih => exact .head (.field hmem) ih
  | candidate htype _ ih => exact .head (.candidate (offers_of_typeOfNode htype)) ih

/-! ## More types -/

variable {registry' : Registry}

/-- A closed registry says all there is to say of a covered type: names that are bound besides are
never looked up. -/
theorem coerce_of_more_types (hclosed : registry.Closed)
    (hextends : ∀ name type, registry.get? name = some type → registry'.get? name = some type)
    {type : InputType} (hcovers : registry.Covers type) (value : Json) :
    type.coerce registry' value = type.coerce registry value := by
  induction type, value using valueInduction registry with
  | null type =>
    cases type with
    | nonNull inner => rw [coerce_null_nonNull, coerce_null_nonNull]
    | _ => rw [coerce_null rfl, coerce_null rfl]
  | nonNull inner value hnull ih =>
    rw [coerce_nonNull hnull, coerce_nonNull hnull, ih (hclosed.step hcovers .inner)]
  | reference name value hnull ih =>
    obtain ⟨type, hget⟩ := Option.isSome_iff_exists.mp hcovers.isSome_get?
    rw [coerce_reference_some hnull hget, coerce_reference_some hnull (hextends name type hget),
      ih type hget (hclosed.step hcovers (.target hget))]
  | array item items ih =>
    have hitem := hclosed.step hcovers .item
    rw [coerce_array, coerce_array, coerceItems_congr fun value hmem => ih value hmem hitem]
  | lone item value hnull harray ih =>
    rw [coerce_lone hnull harray, coerce_lone hnull harray, ih (hclosed.step hcovers .item)]
  | builtin scalar value hnull => rw [coerce_builtin hnull, coerce_builtin hnull]
  | enum enum value hnull => rw [coerce_enum hnull, coerce_enum hnull]
  | object object members ih =>
    rw [coerce_object, coerce_object, coerceFields_congr fun field hmem value hlookup =>
      ih field hmem value hlookup (hclosed.step hcovers (.field hmem))]
  | other object value hnull hobject =>
    rw [coerce_not_object hnull hobject, coerce_not_object hnull hobject]
  | union union value hnull ih =>
    have hparse : union.parseValue registry' value = union.parseValue registry value :=
      parseValue_congr_of fun type htype =>
        ih type htype (hclosed.step hcovers (.candidate (offers_of_typeOfValue htype)))
    rw [coerce_union hnull, coerce_union hnull, hparse]

/-- The same for literals. -/
theorem convert_of_more_types (hclosed : registry.Closed)
    (hextends : ∀ name type, registry.get? name = some type → registry'.get? name = some type)
    {type : InputType} (hcovers : registry.Covers type) (node : Literal.Node) :
    type.convert registry' source node = type.convert registry source node := by
  induction type, node using nodeInduction registry source with
  | null type node hnonNull hnull => rw [convert_null hnonNull hnull, convert_null hnonNull hnull]
  | nonNull inner node ih =>
    rw [convert_nonNull, convert_nonNull, ih (hclosed.step hcovers .inner)]
  | reference name node hnull ih =>
    obtain ⟨type, hget⟩ := Option.isSome_iff_exists.mp hcovers.isSome_get?
    rw [convert_reference hnull, convert_reference hnull, hget, hextends name type hget,
      Option.bind_some, Option.bind_some, ih type hget (hclosed.step hcovers (.target hget))]
  | list item node items hvalue ih =>
    have hitem := hclosed.step hcovers .item
    rw [convert_list hvalue, convert_list hvalue,
      convertItems_congr fun part hmem => ih part hmem hitem]
  | lone item node hnull hlist ih =>
    rw [convert_lone hnull hlist, convert_lone hnull hlist, ih (hclosed.step hcovers .item)]
  | builtin scalar node hnull => rw [convert_builtin hnull, convert_builtin hnull]
  | enum enum node hnull => rw [convert_enum hnull, convert_enum hnull]
  | object object node given hvalue ih =>
    rw [convert_object hvalue, convert_object hvalue,
      convertFields_congr fun field hmem found hfind =>
        ih field hmem found hfind (hclosed.step hcovers (.field hmem))]
  | other object node hnull hobject =>
    rw [convert_not_object hnull hobject, convert_not_object hnull hobject]
  | union union node hnull ih =>
    have hparse : union.parseLiteral registry' source node =
        union.parseLiteral registry source node :=
      parseLiteral_congr_of fun type htype =>
        ih type htype (hclosed.step hcovers (.candidate (offers_of_typeOfNode htype)))
    rw [convert_union hnull, convert_union hnull, hparse]

end

namespace Document

/-- **A schema is closed.** Every name that a registered type leads to is bound, through fields,
wrappers and candidates, so no name is unknown when the check of a value or the conversion of a
literal looks it up, and what is registered besides changes no outcome. -/
theorem bound_of_build {document : Document} {schema : Schema}
    (hbuild : document.build = .ok schema) {type : NamedType}
    (hmem : type ∈ schema.registry.types) :
    (∀ name, (InputType.named type).LeadsTo schema.registry (.reference name) →
      (schema.registry.get? name).isSome) ∧
    (∀ value name part, Checks schema.registry (.named type) value (.reference name) part →
      (schema.registry.get? name).isSome) ∧
    (∀ source node name part,
      Visits schema.registry source (.named type) node (.reference name) part →
        (schema.registry.get? name).isSome) ∧
    ∀ registry : Registry, (∀ name target, schema.registry.get? name = some target →
        registry.get? name = some target) →
      (∀ value, (InputType.named type).coerce registry value =
        (InputType.named type).coerce schema.registry value) ∧
      ∀ source node, (InputType.named type).convert registry source node =
        (InputType.named type).convert schema.registry source node := by
  have hclosed := closed_of_build hbuild
  have hcovers : schema.registry.Covers (.named type) := .registered hmem
  have hbound : ∀ name, (InputType.named type).LeadsTo schema.registry (.reference name) →
      (schema.registry.get? name).isSome :=
    fun name hleads => (hclosed.leadsTo hcovers hleads).isSome_get?
  refine ⟨hbound, fun _ name _ hchecks => hbound name hchecks.leadsTo,
    fun _ _ name _ hvisits => hbound name hvisits.leadsTo, fun registry hextends => ?_⟩
  exact ⟨coerce_of_more_types hclosed hextends hcovers,
    fun _ => convert_of_more_types hclosed hextends hcovers⟩

/-- Trees have trees for branches. -/
def treeDocument : Document :=
  ⟨[.union ⟨"Plant", none, none, .byName ["Tree"]⟩,
    .object ⟨"Tree", none, [("branches", ⟨"[Tree!]", none, none⟩)]⟩]⟩

/-- The object type of trees. -/
def treeType : ObjectType :=
  ⟨"Tree", none, [⟨"branches", .list (.nonNull (.reference "Tree")), none, none⟩]⟩

/-- The union of plants, with wrapped trees. -/
def plantUnion : UnionType :=
  UnionDef.unionOf ⟨"Plant", none, none, .byName ["Tree"]⟩ [.object treeType]

/-- The schema of plants. -/
def treeSchema : Schema := withUnion ⟨afterBuiltins [.object treeType], []⟩ plantUnion

theorem build_treeDocument : treeDocument.build = .ok treeSchema := by
  cbv

theorem bound_of_build_tree : (InputType.named (.union plantUnion)).LeadsTo treeSchema.registry
    (.reference "Tree") ∧ (treeSchema.registry.get? "Tree").isSome := by
  have hmem : .union plantUnion ∈ treeSchema.registry.types :=
    List.mem_append_right _ List.mem_cons_self
  -- From the union to the wrapper, to the tree in it, and from there to the items of its field.
  have hleads : (InputType.named (.union plantUnion)).LeadsTo treeSchema.registry
      (.reference "Tree") := by
    refine .head (.candidate (.inl ⟨"Tree", .table rfl⟩)) ?_
    refine .head (.field (List.mem_cons_of_mem _ List.mem_cons_self)) ?_
    exact .head (.field List.mem_cons_self) (.head .item (.single .inner))
  exact ⟨hleads, (bound_of_build build_treeDocument hmem).1 "Tree" hleads⟩

end Document

end TaggedUnion
