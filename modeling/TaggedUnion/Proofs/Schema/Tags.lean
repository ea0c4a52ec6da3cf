import TaggedUnion.Proofs.Coercion.WrittenFields
import TaggedUnion.Proofs.Schema.Closure
import TaggedUnion.Proofs.Schema.Permutation
import TaggedUnion.Proofs.Union.WrapperLiteral

/-!
# The tag of a converted literal

A union reads the tag of a literal to find a candidate, and the candidate converts the whole
literal again, the tag like any other field. What comes out names the candidate that converted it.

* `NamedType.Reaches`: the object type that a literal gets to through candidates.
* `InputType.Tags`: the types for a tag.
* `convert_of_tags`: under such a type, a key becomes itself.
* `Document.exists_built`: a union of a schema, with its declaration.
* `tag_of_parseLiteral`: the tag in the value that a union makes of a literal.
-/

namespace TaggedUnion

/-- A literal leads from a type through candidates of unions to an object type. -/
inductive NamedType.Reaches (source : Source) (node : Literal.Node) :
    NamedType → ObjectType → Prop where
  | object {object : ObjectType} : Reaches source node (.object object) object
  | candidate {union : UnionType} {type : NamedType} {object : ObjectType}
    (htype : union.typeOfNode source node = .ok type) (h : Reaches source node type object) :
    Reaches source node (.union union) object

/-- `String`, `ID` or an enum, by itself or by its name, and possibly without null. -/
inductive InputType.Tags (registry : Registry) : InputType → Prop where
  | string : Tags registry (.named (.builtin .string))
  | id : Tags registry (.named (.builtin .id))
  | enum {enum : EnumType} : Tags registry (.named (.enum enum))
  | reference {name : String} {type : NamedType} (hget : registry.get? name = some type)
    (h : Tags registry (.named type)) : Tags registry (.reference name)
  | nonNull {inner : InputType} (h : Tags registry inner) : Tags registry (.nonNull inner)

section

variable {registry : Registry} {source : Source} {node : Literal.Node}

/-! ## Tags -/

/-- What a type for a tag makes of a literal is a string. -/
theorem exists_string_of_tags {type : InputType} (h : type.Tags registry)
    (hnull : node.value ≠ .null) {out : Json}
    (hout : type.convert registry source node = some out) : ∃ text, out = .string text := by
  induction h with
  | string =>
    rw [convert_builtin hnull, toOption_eq_some, Builtin.parseLiteral] at hout
    split at hout <;> cases hout
    exact ⟨_, rfl⟩
  | id =>
    rw [convert_builtin hnull, toOption_eq_some, Builtin.parseLiteral] at hout
    split at hout <;> cases hout <;> exact ⟨_, rfl⟩
  | enum =>
    rw [convert_enum hnull, EnumType.convert] at hout
    split at hout
    · split at hout <;> cases hout
      exact ⟨_, rfl⟩
    · cases hout
  | reference hget _ ih =>
    rw [convert_reference hnull, hget] at hout
    exact ih hout
  | nonNull _ ih =>
    rw [convert_nonNull_of_ne_null hnull] at hout
    exact ih hout

/-- **The two readings of a tag agree.** A key that a type for tags takes becomes itself. -/
theorem convert_of_tags {type : InputType} (h : type.Tags registry) {key : String}
    (hkey : node.key? = some key) {out : Json}
    (hout : type.convert registry source node = some out) : out = .string key := by
  have hnull : node.value ≠ .null := by
    intro hvalue
    simp [Literal.Node.key?, hvalue] at hkey
  obtain ⟨text, rfl⟩ := exists_string_of_tags h hnull hout
  rw [key_of_convert hkey hout]

/-! ## Candidates of candidates -/

/-- An object literal gets to an object type, if it converts at all. -/
theorem exists_reaches {type : InputType} {named : NamedType} (hnamed : type = .named named)
    {given : List Literal.Field} (hvalue : node.value = .object given) {out : Json}
    (h : type.convert registry source node = some out) :
    ∃ object, named.Reaches source node object := by
  induction type, node using nodeInduction registry source generalizing named with
  | null type node _ hnull => simp [hnull] at hvalue
  | nonNull => simp at hnamed
  | reference => simp at hnamed
  | list => simp at hnamed
  | lone => simp at hnamed
  | builtin scalar node hnull =>
    rw [convert_builtin hnull, toOption_eq_some] at h
    cases scalar <;> simp [Builtin.parseLiteral, hvalue] at h
  | enum enum node hnull => simp [convert_enum hnull, EnumType.convert, hvalue] at h
  | object object node => exact ⟨object, InputType.named.inj hnamed ▸ .object⟩
  | other object node hnull hobject => exact absurd hvalue (hobject given)
  | union union node hnull ih =>
    rw [convert_union hnull, toOption_eq_some] at h
    obtain ⟨type, htype, hout⟩ := parseLiteral_eq_ok_iff.mp h
    obtain ⟨object, hreaches⟩ := ih type htype rfl hvalue hout
    exact ⟨object, InputType.named.inj hnamed ▸ .candidate htype hreaches⟩

/-- A union passes on what the candidate makes of a literal, so it comes from the object type that
is reached. -/
theorem convert_of_reaches {type : NamedType} {object : ObjectType}
    (h : type.Reaches source node object) (hnull : node.value ≠ .null) {out : Json}
    (hout : (InputType.named type).convert registry source node = some out) :
    (InputType.named (.object object)).convert registry source node = some out := by
  induction h with
  | object => exact hout
  | candidate htype _ ih =>
    rw [convert_union hnull, toOption_eq_some] at hout
    obtain ⟨type', htype', hout⟩ := parseLiteral_eq_ok_iff.mp hout
    cases htype.symm.trans htype'
    exact ih hout

/-- The field that a key is read from becomes the member of that name. Both readings take the first
field, if there are several of that name. -/
theorem member_of_reaches {type : NamedType} {object : ObjectType}
    (h : type.Reaches source node object) {name key : String} {field : Literal.Field}
    (hfield : node.field? name = some field) (hkey : field.value.key? = some key) {out : Json}
    (hout : (InputType.named type).convert registry source node = some out) {declared : Field}
    (hdeclared : object.field? name = some declared) (htags : declared.type.Tags registry) :
    out.member? name = some (.string key) := by
  obtain ⟨given, hvalue, hfind⟩ := value_of_field? hfield
  have hobject := convert_of_reaches h (by simp [hvalue]) hout
  rw [convert_object hvalue] at hobject
  split at hobject
  · obtain ⟨members, hmembers, rfl⟩ := Option.map_eq_some_iff.mp hobject
    obtain ⟨member, hmember, hlookup⟩ := lookup_of_convertFields hmembers hdeclared hfind
    obtain rfl := convert_of_tags htags hkey hmember
    exact hlookup
  · cases hobject

/-- A wrapper's key stands in the first of the two fields of a wrapper. -/
theorem isWrapper_of_wrapperKey? {key : String} (h : UnionType.wrapperKey? node = some key) :
    ∃ tag payload rest, node.IsWrapper tag payload rest ∧ tag.value.key? = some key := by
  unfold UnionType.wrapperKey? at h
  split at h
  · rename_i tag payload rest hfields
    split at h
    · rename_i hnames
      have hvalue : node.value = .object (tag :: payload :: rest) := by
        unfold Literal.Node.fields? at hfields
        cases hvalue : node.value <;> simp_all
      exact ⟨tag, payload, rest, ⟨hvalue, hnames.1, hnames.2⟩, h⟩
    · cases h
  · cases h

/-- What a wrapper makes of a literal has the key for a tag. -/
theorem wrapped_of_convert {tag payload : Literal.Field} {rest : List Literal.Field} {key : String}
    {type : NamedType} (hnode : node.IsWrapper tag payload rest) (hkey : tag.value.key? = some key)
    {out : Json}
    (h : (InputType.named (.object (wrapperOf key type))).convert registry source node =
      some out) :
    ∃ value, (InputType.named type).convert registry source payload.value = some value ∧
      out = .wrapped key value := by
  rw [convert_wrapperOf hnode] at h
  split at h
  · obtain ⟨text, htext, h⟩ := Option.bind_eq_some_iff.mp h
    obtain ⟨value, hvalue, rfl⟩ := Option.map_eq_some_iff.mp h
    obtain rfl := convert_of_tags .string hkey htext
    exact ⟨value, hvalue, rfl⟩
  · cases h

end

namespace Document

/-! ## Unions of a document -/

/-- The unions of a schema are those of the declarations. -/
theorem exists_built {document : Document} {schema : Schema} (hbuild : document.build = .ok schema)
    {union : UnionType} (hunion : union ∈ schema.unions) :
    ∃ declaration types, .union declaration ∈ document.types ∧ Built schema declaration types ∧
      union = declaration.unionOf types := by
  rcases registered_of_build hbuild ((mem_unions_iff_of_build hbuild).mp hunion) with
    ⟨scalar, hscalar⟩ | ⟨declaration, -, hmakes⟩ | ⟨declaration, hmem, types, htypes, hunionOf⟩
  · cases hscalar
  · cases hmakes
  · obtain ⟨types', hbuilt⟩ := built_of_build hbuild hmem
    obtain rfl := htypes.functional hbuilt.resolves
    exact ⟨declaration, types, hmem, hbuilt, NamedType.union.inj hunionOf⟩

/-- A literal leads to the candidate that is declared under its key. -/
theorem Built.exists_candidate {schema : Schema} {declaration : UnionDef} {types : List NamedType}
    (h : Built schema declaration types) {source : Source} {node : Literal.Node} {type : NamedType}
    (htype : (declaration.unionOf types).typeOfNode source node = .ok type) :
    ∃ key name payload, (declaration.unionOf types).literalKey? node = some key ∧
      (key, name) ∈ declaration.inputTypes.pairs ∧ schema.registry.get? name = some payload ∧
        type = (tableEntry declaration.typeKey.isNone (key, payload)).2 := by
  obtain ⟨key, hkey, hfinds⟩ := key_of_typeOfNode rfl htype
  have hentry : (declaration.entries types).lookup key = some type := by
    cases hfinds with
    | table hentry => exact hentry
  obtain ⟨name, payload, hpair, hget, rfl⟩ :=
    (lookup_entries_eq_some_iff h.keys h.resolves).mp hentry
  exact ⟨key, name, payload, hkey, hpair, hget, rfl⟩

/-- **The tag names the candidate.** Let a union of a document make a value of a literal. Then the
literal has a key under which the union declares a candidate.

Without a type key, the literal begins with the two fields of a wrapper, and the value has exactly
the members `_type_` and `_value_`: the key, and what the candidate makes of the second field.

With a type key, the value is what the candidate makes of the literal, which gets to an object type.
If that declares the member of the type key as a type for tags, then the member is the key.

Nothing is asked of the other fields of the literal, so a name may be repeated. -/
theorem tag_of_parseLiteral {document : Document} {schema : Schema}
    (hbuild : document.build = .ok schema) {union : UnionType} (hunion : union ∈ schema.unions)
    {source : Source} {node : Literal.Node} {out : Json}
    (h : union.parseLiteral schema.registry source node = .ok out) :
    ∃ declaration, .union declaration ∈ document.types ∧
      schema.union? declaration.name = some union ∧ declaration.typeKey = union.typeKey ∧
      ∃ key name type, (key, name) ∈ declaration.inputTypes.pairs ∧
        schema.registry.get? name = some type ∧
        match union.typeKey with
        | none => ∃ tag payload rest value, node.IsWrapper tag payload rest ∧
            (InputType.named type).convert schema.registry source payload.value = some value ∧
              out = .object [(typeField, .string key), (valueField, value)]
        | some field =>
            (InputType.named type).convert schema.registry source node = some out ∧
            (∃ object, type.Reaches source node object) ∧
            ∀ object declared, type.Reaches source node object →
              object.field? field = some declared → declared.type.Tags schema.registry →
                out.member? field = some (.string key) := by
  obtain ⟨declaration, types, hmem, hbuilt, rfl⟩ := exists_built hbuild hunion
  obtain ⟨target, htarget, hout⟩ := parseLiteral_eq_ok_iff.mp h
  obtain ⟨key, name, type, hkey, hpair, hget, rfl⟩ := hbuilt.exists_candidate htarget
  refine ⟨declaration, hmem, hbuilt.known, rfl, key, name, type, hpair, hget, ?_⟩
  have htypeKey : (declaration.unionOf types).typeKey = declaration.typeKey := rfl
  unfold UnionType.literalKey? at hkey
  rw [htypeKey] at hkey ⊢
  cases hdeclared : declaration.typeKey with
  | none =>
    simp only [hdeclared] at hkey hout ⊢
    obtain ⟨tag, payload, rest, hnode, htag⟩ := isWrapper_of_wrapperKey? hkey
    obtain ⟨value, hvalue, rfl⟩ := wrapped_of_convert hnode htag hout
    exact ⟨tag, payload, rest, value, hnode, hvalue, rfl⟩
  | some field =>
    simp only [hdeclared] at hkey hout ⊢
    obtain ⟨given, hfield, hgivenKey⟩ := Option.bind_eq_some_iff.mp hkey
    obtain ⟨fields, hvalue, -⟩ := value_of_field? hfield
    exact ⟨hout, exists_reaches rfl hvalue hout, fun object declared hreaches hfound htags =>
      member_of_reaches hreaches hfield hgivenKey hout hfound htags⟩

/-! ## A tag that is repeated -/

/-- A union of dogs, which say of what kind they are. -/
def dogDocument : Document :=
  ⟨[.union ⟨"U", none, some "kind", .byName ["Dog"]⟩,
    .object ⟨"Dog", none, [("kind", ⟨"String!", none, none⟩), ("age", ⟨"Int", none, none⟩)]⟩]⟩

/-- The object type of dogs. -/
def dogType : ObjectType :=
  ⟨"Dog", none, [⟨"kind", .nonNull (.reference "String"), none, none⟩,
    ⟨"age", .reference "Int", none, none⟩]⟩

/-- The union of dogs. -/
def dogUnion : UnionType :=
  UnionDef.unionOf ⟨"U", none, some "kind", .byName ["Dog"]⟩ [.object dogType]

/-- The schema of dogs. -/
def dogSchema : Schema := withUnion ⟨afterBuiltins [.object dogType], []⟩ dogUnion

theorem build_dogDocument : dogDocument.build = .ok dogSchema := by
  cbv

/-- A dog that is also said to be a cat, `{kind:"Dog",age:3,kind:"Cat"}`. -/
def dogNode : Literal.Node :=
  ⟨.object
    [⟨⟨"kind", ⟨1, 5⟩⟩, ⟨.string "Dog", ⟨6, 11⟩⟩, ⟨1, 11⟩⟩,
      ⟨⟨"age", ⟨12, 15⟩⟩, ⟨.int "3", ⟨16, 17⟩⟩, ⟨12, 17⟩⟩,
      ⟨⟨"kind", ⟨18, 22⟩⟩, ⟨.string "Cat", ⟨23, 28⟩⟩, ⟨18, 28⟩⟩], ⟨0, 29⟩⟩

/-- The value that it becomes. -/
def dogValue : Json := .object [("kind", .string "Dog"), ("age", .number (.integer 3))]

/-- What is said first counts, for the candidate and in the value. -/
theorem tag_of_parseLiteral_dog :
    dogUnion.parseLiteral dogSchema.registry ⟨"", ""⟩ dogNode = .ok dogValue ∧
    (InputType.named (.object dogType)).convert dogSchema.registry ⟨"", ""⟩ dogNode =
      some dogValue ∧
    dogValue.member? "kind" = some (.string "Dog") := by
  have hliteral : dogUnion.parseLiteral dogSchema.registry ⟨"", ""⟩ dogNode =
      .ok dogValue := by
    cbv
  obtain ⟨declaration, hmem, -, -, key, name, type, hpair, hget, hconvert, -, hmember⟩ :=
    tag_of_parseLiteral build_dogDocument (List.mem_singleton.mpr rfl) hliteral
  obtain rfl : declaration = ⟨"U", none, some "kind", .byName ["Dog"]⟩ := by
    simpa [dogDocument] using hmem
  obtain ⟨rfl, rfl⟩ : key = "Dog" ∧ name = "Dog" := by
    simpa [CandidateNames.pairs] using hpair
  cases hget
  exact ⟨hliteral, hconvert, hmember dogType _ .object rfl (.nonNull (.reference rfl .string))⟩

end Document

end TaggedUnion
