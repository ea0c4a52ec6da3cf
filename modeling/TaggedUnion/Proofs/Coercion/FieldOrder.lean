import TaggedUnion.Proofs.Coercion.MemberOrder
import TaggedUnion.Proofs.Literal.Quotation

/-!
# The order of fields

The conversion of a literal asks for fields by their names too, save for one: the rule for wrappers
wants the two fields of a wrapper first and in order. Where every union has a type key the order of
fields does not matter at all.

* `Literal.Node.Reordered`: literals that differ in the order of fields only.
* `convert_of_reordered`: reordered literals become the same value.
* `parse_of_reordered`: the unions of a document, on reordered values and literals.
-/

namespace TaggedUnion

namespace Literal

/-- The text of the name of a field. -/
def Field.key (field : Field) : String := field.name.text

/-- The fields of each object in a literal have distinct names. -/
def Node.HasDistinctFields (node : Node) : Prop :=
  ∀ part given, node.Part part → part.value = .object given → (given.map Field.key).Nodup

/-- The literals differ in the order of fields only, at any depth, wherever they stand. -/
inductive Node.Reordered : Node → Node → Prop where
  | same {node node' : Node} (hvalue : node.value = node'.value) : Reordered node node'
  | list {node node' : Node} {items items' : List Node} (hvalue : node.value = .list items)
    (hvalue' : node'.value = .list items') (hitems : List.Forall₂ Reordered items items') :
    Reordered node node'
  /-- The fields are put in another order, and each value may be reordered. -/
  | object {node node' : Node} {given order given' : List Field}
    (hvalue : node.value = .object given) (hvalue' : node'.value = .object given')
    (hperm : given.Perm order) (hnames : order.map Field.key = given'.map Field.key)
    (hvalues : List.Forall₂ Reordered (order.map Field.value) (given'.map Field.value)) :
    Reordered node node'

/-! ## Parts -/

theorem Node.HasDistinctFields.item {node item : Node} {items : List Node}
    (h : node.HasDistinctFields) (hvalue : node.value = .list items) (hmem : item ∈ items) :
    item.HasDistinctFields :=
  fun part given hpart => h part given (.item hvalue hmem hpart)

theorem Node.HasDistinctFields.field {node : Node} {given : List Field} {field : Field}
    (h : node.HasDistinctFields) (hvalue : node.value = .object given) (hmem : field ∈ given) :
    field.value.HasDistinctFields :=
  fun part given hpart => h part given (.field hvalue hmem hpart)

/-! ## Reordered literals -/

/-- The fields as entries under their names. -/
def entries (fields : List Field) : List (String × Node) :=
  fields.map fun field => (field.key, field.value)

theorem map_fst_entries {fields : List Field} :
    (entries fields).map Prod.fst = fields.map Field.key := by
  simp [entries]

theorem map_snd_entries {fields : List Field} :
    (entries fields).map Prod.snd = fields.map Field.value := by
  simp [entries]

theorem map_value_find? {fields : List Field} {name : String} :
    (fields.find? fun field => field.name.text = name).map Field.value =
      (entries fields).lookup name := by
  induction fields with
  | nil => rfl
  | cons first rest ih =>
    rw [entries, List.map_cons, List.lookup_cons, ← entries, List.find?_cons, ← ih]
    by_cases hname : first.name.text = name
    · subst hname
      simp [Field.key]
    · have hne : (name == first.key) = false := by simpa [Field.key] using Ne.symm hname
      simp [hname, hne]

namespace Node.Reordered

variable {node node' : Node}

/-- Under each name there are reordered literals, or none. -/
theorem find? {given given' : List Field} (h : node.Reordered node')
    (hvalue : node.value = .object given) (hvalue' : node'.value = .object given')
    (hdistinct : (given.map Field.key).Nodup) (name : String) :
    Option.Rel (fun found found' : Field => found.value.Reordered found'.value)
      (given.find? fun field => field.name.text = name)
      (given'.find? fun field => field.name.text = name) := by
  have hrel : Option.Rel Node.Reordered ((entries given).lookup name)
      ((entries given').lookup name) := by
    cases h with
    | same hsame =>
      rw [hvalue, hvalue', Value.object.injEq] at hsame
      subst hsame
      cases (entries given).lookup name with
      | none => exact .none
      | some found => exact .some (.same rfl)
    | list hlist => simp [hvalue] at hlist
    | @object _ _ _ order _ hgiven hgiven' hperm hnames hvalues =>
      cases hvalue.symm.trans hgiven
      cases hvalue'.symm.trans hgiven'
      have hentries : (entries given).Perm (entries order) := hperm.map _
      rw [lookup_eq_of_perm hentries (map_fst_entries ▸ hdistinct)]
      rw [← map_fst_entries, ← map_fst_entries] at hnames
      rw [← map_snd_entries, ← map_snd_entries] at hvalues
      exact lookup_of_forall₂ hnames hvalues name
  rw [← map_value_find?, ← map_value_find?] at hrel
  generalize given.find? (fun field => field.name.text = name) = found at *
  generalize given'.find? (fun field => field.name.text = name) = found' at *
  cases found <;> cases found' <;> cases hrel
  · exact .none
  · exact .some ‹_›

theorem value_eq_null_iff (h : node.Reordered node') :
    node.value = .null ↔ node'.value = .null := by
  cases h with
  | same hvalue => rw [hvalue]
  | list hvalue hvalue' => simp [hvalue, hvalue']
  | object hvalue hvalue' => simp [hvalue, hvalue']

theorem exists_list {items : List Node} (h : node.Reordered node')
    (hvalue : node.value = .list items) :
    ∃ items', node'.value = .list items' ∧ List.Forall₂ Node.Reordered items items' := by
  cases h with
  | same hsame => exact ⟨items, hsame ▸ hvalue, List.forall₂_same.mpr fun _ _ => .same rfl⟩
  | list hitems hitems' h =>
    cases hvalue.symm.trans hitems
    exact ⟨_, hitems', h⟩
  | object hobject => simp [hvalue] at hobject

theorem not_list (h : node.Reordered node') (hlist : ∀ items, node.value ≠ .list items) :
    ∀ items, node'.value ≠ .list items := by
  cases h with
  | same hvalue => exact hvalue ▸ hlist
  | list hvalue => exact absurd hvalue (hlist _)
  | object _ hvalue' => simp [hvalue']

theorem not_object (h : node.Reordered node') (hobject : ∀ given, node.value ≠ .object given) :
    ∀ given, node'.value ≠ .object given := by
  cases h with
  | same hvalue => exact hvalue ▸ hobject
  | list _ hvalue' => simp [hvalue']
  | object hvalue => exact absurd hvalue (hobject _)

theorem exists_object {given : List Field} (h : node.Reordered node')
    (hvalue : node.value = .object given) : ∃ given', node'.value = .object given' ∧
      (given.map Field.key).Perm (given'.map Field.key) := by
  cases h with
  | same hsame => exact ⟨given, hsame ▸ hvalue, .refl _⟩
  | list hlist => simp [hvalue] at hlist
  | object hgiven hgiven' hperm hnames _ =>
    cases hvalue.symm.trans hgiven
    exact ⟨_, hgiven', hnames ▸ hperm.map _⟩

theorem key?_eq (h : node.Reordered node') : node.key? = node'.key? := by
  unfold Node.key?
  cases h with
  | same hvalue => rw [hvalue]
  | list hvalue hvalue' => rw [hvalue, hvalue']
  | object hvalue hvalue' => rw [hvalue, hvalue']

/-- The text under a name is the same. -/
theorem field?_key?_eq (h : node.Reordered node') (hdistinct : node.HasDistinctFields)
    (name : String) : ((node.field? name).bind fun field => field.value.key?) =
      (node'.field? name).bind fun field => field.value.key? := by
  unfold Node.field? Node.fields?
  by_cases hobject : ∃ given, node.value = .object given
  · obtain ⟨given, hvalue⟩ := hobject
    obtain ⟨given', hvalue', -⟩ := h.exists_object hvalue
    simp only [hvalue, hvalue', Option.bind_some]
    have hrel := h.find? hvalue hvalue' (hdistinct node given .here hvalue) name
    generalize given.find? (fun field => field.name.text = name) = found at *
    generalize given'.find? (fun field => field.name.text = name) = found' at *
    cases hrel with
    | none => rfl
    | some hfield => exact hfield.key?_eq
  · cases h with
    | same hvalue => rw [hvalue]
    | list hvalue hvalue' => simp only [hvalue, hvalue']
    | object hvalue => exact absurd ⟨_, hvalue⟩ hobject

end Node.Reordered

end Literal

/-! ## Conversion -/

section Conversion

variable {registry : Registry} {source source' : Source}

theorem Builtin.toOption_parseLiteral_of_reordered {scalar : Builtin} {node node' : Literal.Node}
    (h : node.Reordered node') : (scalar.parseLiteral source node).toOption =
      (scalar.parseLiteral source' node').toOption := by
  cases h with
  | same hvalue => cases scalar <;> simp only [Builtin.parseLiteral, hvalue] <;> split <;> rfl
  | list hvalue hvalue' =>
    cases scalar <;> simp only [Builtin.parseLiteral, hvalue, hvalue'] <;> rfl
  | object hvalue hvalue' =>
    cases scalar <;> simp only [Builtin.parseLiteral, hvalue, hvalue'] <;> rfl

theorem EnumType.convert_of_reordered {enum : EnumType} {node node' : Literal.Node}
    (h : node.Reordered node') : enum.convert node = enum.convert node' := by
  unfold EnumType.convert
  cases h with
  | same hvalue => rw [hvalue]
  | list hvalue hvalue' => rw [hvalue, hvalue']
  | object hvalue hvalue' => rw [hvalue, hvalue']

/-- The value of a union is that of the candidate, whatever is said of a literal without one. -/
theorem toOption_parseLiteral {union : UnionType} {node : Literal.Node} :
    (union.parseLiteral registry source node).toOption =
      (union.typeOfNode source node).toOption.bind fun type =>
        (InputType.named type).convert registry source node := by
  cases htype : union.typeOfNode source node with
  | error error =>
    rw [parseLiteral_of_typeOfNode_error htype]
    rfl
  | ok type =>
    rw [parseLiteral_of_typeOfNode htype, gateLiteral]
    simp only [Except.toOption, Option.bind_some]
    cases (InputType.named type).convert registry source node <;> rfl

/-- With a type key, the candidate of a literal does not depend on the order of fields. -/
theorem typeOfNode_of_reordered {union : UnionType} {node node' : Literal.Node}
    (hunion : (InputType.named (.union union)).Declared) (hkey : union.typeKey.isSome)
    (hdistinct : node.HasDistinctFields) (h : node.Reordered node') :
    union.typeOfNode source node = union.typeOfNode source' node' := by
  obtain ⟨key, hkey⟩ := Option.isSome_iff_exists.mp hkey
  cases hunion with
  | union hvalue hliteral =>
    unfold UnionType.typeOfNode UnionType.literalTarget
    simp only [hliteral, hkey, h.field?_key?_eq hdistinct]

/-- A union with a type key makes the same value of reordered literals if its candidates do. -/
theorem toOption_parseLiteral_of_candidates {union : UnionType} {node node' : Literal.Node}
    (hunion : (InputType.named (.union union)).Declared) (hkey : union.typeKey.isSome)
    (hdistinct : node.HasDistinctFields) (h : node.Reordered node')
    (hcandidate : ∀ type, union.typeOfNode source node = .ok type →
      (InputType.named type).convert registry source node =
        (InputType.named type).convert registry source' node') :
    (union.parseLiteral registry source node).toOption =
      (union.parseLiteral registry source' node').toOption := by
  have htype : union.typeOfNode source node = union.typeOfNode source' node' :=
    typeOfNode_of_reordered hunion hkey hdistinct h
  rw [toOption_parseLiteral, toOption_parseLiteral, ← htype]
  exact Option.bind_congr fun type hsome => hcandidate type (toOption_eq_some.mp hsome)

theorem convertItems_of_forall₂ {item : InputType} {items items' : List Literal.Node}
    (h : List.Forall₂ Literal.Node.Reordered items items')
    (hitem : ∀ part ∈ items, ∀ part', part.Reordered part' →
      item.convert registry source part = item.convert registry source' part') :
    convertItems registry source item items = convertItems registry source' item items' := by
  induction h with
  | nil => rw [convertItems_nil, convertItems_nil]
  | cons hpart _ ih =>
    obtain ⟨hfirst, hrest⟩ := List.forall_mem_cons.mp hitem
    rw [convertItems_cons, convertItems_cons, hfirst _ hpart, ih hrest]

theorem convertFields_of_rel {given given' : List Literal.Field} {fields : List Field}
    (h : ∀ name, Option.Rel
      (fun found found' : Literal.Field => found.value.Reordered found'.value)
      (given.find? fun field => field.name.text = name)
      (given'.find? fun field => field.name.text = name))
    (hfield : ∀ field ∈ fields, ∀ found,
      given.find? (fun other => other.name.text = field.name) = some found →
        ∀ part', found.value.Reordered part' →
          field.type.convert registry source found.value =
            field.type.convert registry source' part') :
    convertFields registry source given fields = convertFields registry source' given' fields := by
  induction fields with
  | nil => rw [convertFields_nil, convertFields_nil]
  | cons field rest ih =>
    obtain ⟨hfirst, hrest⟩ := List.forall_mem_cons.mp hfield
    have hhere : convertField registry source given field =
        convertField registry source' given' field := by
      have hrel := h field.name
      unfold convertField
      generalize given.find? (fun other => other.name.text = field.name) = found? at *
      generalize given'.find? (fun other => other.name.text = field.name) = found?' at *
      cases hrel with
      | none => rfl
      | some hpart => simp only [hfirst _ rfl _ hpart]
    rw [convertFields_cons, convertFields_cons, hhere, ih hrest]

/-- **Reordered literals become the same value.** The types are those of a closed registry in which
all unions have a type key. -/
theorem convert_of_reordered (hclosed : registry.Closed)
    (hdeclared : ∀ type ∈ registry.types, (InputType.named type).Declared)
    (hkeys : ∀ union, .union union ∈ registry.types → union.typeKey.isSome)
    {type : InputType} {node node' : Literal.Node} (hcovers : registry.Covers type)
    (hdistinct : node.HasDistinctFields) (h : node.Reordered node') :
    type.convert registry source node = type.convert registry source' node' := by
  induction type, node using nodeInduction registry source generalizing node' with
  | null type node hnonNull hnull =>
    rw [convert_null hnonNull hnull, convert_null hnonNull (h.value_eq_null_iff.mp hnull)]
  | nonNull inner node ih =>
    rw [convert_nonNull, convert_nonNull, ih (hclosed.step hcovers .inner) hdistinct h]
  | reference name node hnull ih =>
    rw [convert_reference hnull, convert_reference (mt h.value_eq_null_iff.mpr hnull)]
    exact Option.bind_congr fun type hget =>
      ih type hget (hclosed.step hcovers (.target hget)) hdistinct h
  | list item node items hvalue ih =>
    have hitem := hclosed.step hcovers .item
    obtain ⟨items', hvalue', hitems⟩ := h.exists_list hvalue
    rw [convert_list hvalue, convert_list hvalue', convertItems_of_forall₂ hitems
      fun part hmem part' hpart => ih part hmem hitem (hdistinct.item hvalue hmem) hpart]
  | lone item node hnull hlist ih =>
    rw [convert_lone hnull hlist,
      convert_lone (mt h.value_eq_null_iff.mpr hnull) (h.not_list hlist),
      ih (hclosed.step hcovers .item) hdistinct h]
  | builtin scalar node hnull =>
    rw [convert_builtin hnull, convert_builtin (mt h.value_eq_null_iff.mpr hnull)]
    exact Builtin.toOption_parseLiteral_of_reordered h
  | enum enum node hnull =>
    rw [convert_enum hnull, convert_enum (mt h.value_eq_null_iff.mpr hnull)]
    exact EnumType.convert_of_reordered h
  | object object node given hvalue ih =>
    obtain ⟨given', hvalue', hnames⟩ := h.exists_object hvalue
    have hrel := h.find? hvalue hvalue' (hdistinct node given .here hvalue)
    have hfields : convertFields registry source given object.fields =
        convertFields registry source' given' object.fields := by
      refine convertFields_of_rel hrel fun field hmem found hfind part' hpart => ?_
      exact ih field hmem found hfind (hclosed.step hcovers (.field hmem))
        (hdistinct.field hvalue (List.mem_of_find?_eq_some hfind)) hpart
    have hknown : (given.all fun field => (object.field? field.name.text).isSome) =
        given'.all fun field => (object.field? field.name.text).isSome := by
      have hall := hnames.all_eq (f := fun name => (object.field? name).isSome)
      rwa [List.all_map, List.all_map] at hall
    rw [convert_object hvalue, convert_object hvalue', hfields, hknown]
  | other object node hnull hobject =>
    rw [convert_not_object hnull hobject,
      convert_not_object (mt h.value_eq_null_iff.mpr hnull) (h.not_object hobject)]
  | union union node hnull ih =>
    have hmem : .union union ∈ registry.types := by
      cases hcovers
      assumption
    rw [convert_union hnull, convert_union (mt h.value_eq_null_iff.mpr hnull)]
    refine toOption_parseLiteral_of_candidates (hdeclared _ hmem) (hkeys union hmem) hdistinct h
      fun type htype => ?_
    exact ih type htype (hclosed.step hcovers (.candidate (offers_of_typeOfNode htype))) hdistinct h

end Conversion

namespace Document

/-- **The order of members and of fields.** A union takes a runtime value in any order of members,
if all members under type keys are strings. Where all unions have type keys, it takes a literal in
any order of fields, and makes the same value of it. -/
theorem parse_of_reordered {document : Document} {schema : Schema}
    (hbuild : document.build = .ok schema) {union : UnionType} (hunion : union ∈ schema.unions) :
    (∀ value value' : Json, value.Reordered value' →
      value.IsTagged (fun name => ∃ other ∈ schema.unions, other.typeKey = some name) →
        ((∃ out, union.parseValue schema.registry value = .ok out) ↔
          ∃ out, union.parseValue schema.registry value' = .ok out)) ∧
    ((∀ declaration, .union declaration ∈ document.types → declaration.typeKey.isSome) →
      ∀ (source source' : Source) (node node' : Literal.Node), node.Reordered node' →
        node.HasDistinctFields → ∀ out,
          union.parseLiteral schema.registry source node = .ok out ↔
            union.parseLiteral schema.registry source' node' = .ok out) := by
  have hclosed := closed_of_build hbuild
  have hdeclared := (declared_of_build hbuild).types
  have hmem := (mem_unions_iff_of_build hbuild).mp hunion
  constructor
  · intro value value' h htagged
    refine exists_parseValue_iff_of_reordered hclosed hdeclared (fun other hother key hkey => ?_)
      hmem htagged h
    exact ⟨other, (mem_unions_iff_of_build hbuild).mpr hother, hkey⟩
  · intro hkeys source source' node node' h hdistinct out
    have hregistered : ∀ union, .union union ∈ schema.registry.types → union.typeKey.isSome := by
      intro union hmem
      rcases registered_of_build hbuild hmem with
        ⟨_, ⟨⟩⟩ | ⟨_, -, ⟨⟩⟩ | ⟨declaration, hdeclaration, types, -, hunion⟩
      cases hunion
      exact hkeys declaration hdeclaration
    have hparse : (union.parseLiteral schema.registry source node).toOption =
        (union.parseLiteral schema.registry source' node').toOption := by
      refine toOption_parseLiteral_of_candidates (hdeclared _ hmem) (hregistered union hmem)
        hdistinct h fun type htype => ?_
      have hcovers : schema.registry.Covers (.named type) :=
        hclosed.step (.registered hmem) (.candidate (offers_of_typeOfNode htype))
      exact convert_of_reordered hclosed hdeclared hregistered hcovers hdistinct h
    rw [← toOption_eq_some, hparse, toOption_eq_some]

/-- Pets tell their kind. -/
def petUnionDef : UnionDef := ⟨"Pet", none, some "kind", .byName ["Cat"]⟩

/-- The object type of cats that tell their kind. -/
def kindCatType : ObjectType :=
  ⟨"Cat", none, [⟨"kind", .reference "String", none, none⟩,
    ⟨"name", .reference "String", none, none⟩]⟩

/-- The document of pets that tell their kind. -/
def kindDocument : Document :=
  ⟨[.union petUnionDef,
    .object ⟨"Cat", none, [("kind", ⟨"String", none, none⟩), ("name", ⟨"String", none, none⟩)]⟩]⟩

/-- Its schema. -/
def kindSchema : Schema :=
  withUnion ⟨afterBuiltins [.object kindCatType], []⟩ (petUnionDef.unionOf [.object kindCatType])

theorem build_kindDocument : kindDocument.build = .ok kindSchema := by
  cbv

/-- The fields of a cat, from its kind on. -/
def kindFields : List Literal.Field :=
  [⟨⟨"kind", ⟨1, 5⟩⟩, ⟨.string "Cat", ⟨6, 11⟩⟩, ⟨1, 11⟩⟩,
    ⟨⟨"name", ⟨12, 16⟩⟩, ⟨.string "Tom", ⟨17, 22⟩⟩, ⟨12, 22⟩⟩]

theorem parse_of_reordered_cat :
    (∃ out, (petUnionDef.unionOf [.object kindCatType]).parseValue kindSchema.registry
      (.object [("name", .string "Tom"), ("kind", .string "Cat")]) = .ok out) ∧
    (petUnionDef.unionOf [.object kindCatType]).parseLiteral kindSchema.registry ⟨"", ""⟩
      ⟨.object kindFields.reverse, ⟨0, 23⟩⟩ =
        .ok (.object [("kind", .string "Cat"), ("name", .string "Tom")]) := by
  have hunion : petUnionDef.unionOf [.object kindCatType] ∈ kindSchema.unions := List.mem_cons_self
  obtain ⟨hvalues, hliterals⟩ := parse_of_reordered build_kindDocument hunion
  constructor
  · have htagged : (Json.object [("kind", .string "Cat"), ("name", .string "Tom")]).IsTagged
        (fun name => ∃ other ∈ kindSchema.unions, other.typeKey = some name) := by
      constructor
      · intro members hpart
        cases hpart with
        | here => decide
        | member hmem hpart => rcases List.mem_pair.mp hmem with rfl | rfl <;> cases hpart
      · intro members hpart member hmem _
        cases hpart with
        | here => rcases List.mem_pair.mp hmem with rfl | rfl <;> exact ⟨_, rfl⟩
        | member hmem hpart => rcases List.mem_pair.mp hmem with rfl | rfl <;> cases hpart
    refine (hvalues (.object [("kind", .string "Cat"), ("name", .string "Tom")]) _ ?_ htagged).mp
      ⟨_, by cbv⟩
    exact .object (.swap _ _ _) rfl (.cons .same (.cons .same .nil))
  · have hkeys : ∀ declaration, .union declaration ∈ kindDocument.types →
        declaration.typeKey.isSome := by
      intro declaration hmem
      rcases List.mem_pair.mp hmem with h | h
      · cases h
        rfl
      · cases h
    have hdistinct : (⟨.object kindFields, ⟨0, 23⟩⟩ : Literal.Node).HasDistinctFields := by
      intro part given hpart hvalue
      cases hpart with
      | here =>
        cases hvalue
        decide
      | item hitems => cases hitems
      | field hfields hmem hpart =>
        cases hfields
        rcases List.mem_pair.mp hmem with rfl | rfl <;> cases hpart <;> simp_all
    refine (hliterals hkeys ⟨"", ""⟩ ⟨"", ""⟩ ⟨.object kindFields, ⟨0, 23⟩⟩ _ ?_ hdistinct _).mp
      (by cbv)
    exact .object rfl rfl (List.reverse_perm kindFields).symm rfl
      (.cons (.same rfl) (.cons (.same rfl) .nil))

end Document

end TaggedUnion
