import Mathlib
import TaggedUnion.Literal.Parser
import TaggedUnion.Proofs.Coercion.Conformance
import TaggedUnion.Proofs.Coercion.NodeInduction
import TaggedUnion.Proofs.Schema.Declared

/-!
# Literals read back as values

A union reads the candidate of a literal and that of a runtime value by different rules. So the
value that a literal becomes need not be one that the union takes: a payload may be null or a zero,
a tag may be empty or stand in a list, and a default may be any value. This file says when it is
one.

* `UnionType.Tells`: a value that still tells its candidate.
* `Visits`: where the conversion of a literal gets to.
* `ReadsBack`: what has to hold there.
* `parseValue_of_parseLiteral`: under these conditions the value is accepted and kept.
-/

namespace TaggedUnion

/-- The tag of the value is a string and not empty, and the payload of a wrapper is truthy. -/
def UnionType.Tells (union : UnionType) (value : Json) : Prop :=
  match union.typeKey with
  | some field => ∃ tag, value.member? field = some (.string tag) ∧ tag ≠ ""
  | none => ∃ tag payload, value.member? typeField = some (.string tag) ∧ tag ≠ "" ∧
      value.member? valueField = some payload ∧ payload.isTruthy

/-- The types and literals that the conversion of a literal under a type gets to. -/
inductive Visits (registry : Registry) (source : Source) :
    InputType → Literal.Node → InputType → Literal.Node → Prop where
  | here {type : InputType} {node : Literal.Node} : Visits registry source type node type node
  | nonNull {inner type : InputType} {node part : Literal.Node}
    (h : Visits registry source inner node type part) :
    Visits registry source (.nonNull inner) node type part
  | reference {name : String} {target : NamedType} {type : InputType} {node part : Literal.Node}
    (hget : registry.get? name = some target)
    (h : Visits registry source (.named target) node type part) :
    Visits registry source (.reference name) node type part
  | item {item type : InputType} {node element part : Literal.Node} {items : List Literal.Node}
    (hvalue : node.value = .list items) (hmem : element ∈ items)
    (h : Visits registry source item element type part) :
    Visits registry source (.list item) node type part
  | lone {item type : InputType} {node part : Literal.Node}
    (hlist : ∀ items, node.value ≠ .list items) (h : Visits registry source item node type part) :
    Visits registry source (.list item) node type part
  | field {object : ObjectType} {field : Field} {type : InputType} {node part : Literal.Node}
    {given : List Literal.Field} {found : Literal.Field} (hvalue : node.value = .object given)
    (hmem : field ∈ object.fields)
    (hfind : given.find? (fun other => other.name.text = field.name) = some found)
    (h : Visits registry source field.type found.value type part) :
    Visits registry source (.named (.object object)) node type part
  | candidate {union : UnionType} {target : NamedType} {type : InputType}
    {node part : Literal.Node} (htype : union.typeOfNode source node = .ok target)
    (h : Visits registry source (.named target) node type part) :
    Visits registry source (.named (.union union)) node type part

/-- Wherever the conversion gets to, what a union makes of a literal still tells its candidate, and
a default that is filled in conforms to the type of its field. -/
structure ReadsBack (registry : Registry) (source : Source) (type : InputType)
    (node : Literal.Node) : Prop where
  tags : ∀ union part value, Visits registry source type node (.named (.union union)) part →
    union.parseLiteral registry source part = .ok value → union.Tells value
  defaults : ∀ object part given field value,
    Visits registry source type node (.named (.object object)) part →
      part.value = .object given → field ∈ object.fields →
        given.find? (fun other => other.name.text = field.name) = none →
          field.default? = some value → field.type.Conforms registry value

/-- What holds wherever the conversion gets to holds where a part of it gets to. -/
theorem ReadsBack.of_visits {registry : Registry} {source : Source} {type type' : InputType}
    {node node' : Literal.Node} (h : ReadsBack registry source type node)
    (hvisits : ∀ {target part}, Visits registry source type' node' target part →
      Visits registry source type node target part) :
    ReadsBack registry source type' node' :=
  ⟨fun union part value hpart => h.tags union part value (hvisits hpart),
    fun object part given field value hpart =>
      h.defaults object part given field value (hvisits hpart)⟩

section

variable {registry : Registry} {source : Source}

/-! ## Tags -/

/-- A string that comes from a key of a literal is that key. -/
theorem key_of_convert {type : InputType} {node : Literal.Node} {key text : String}
    (hkey : node.key? = some key) (h : type.convert registry source node = some (.string text)) :
    text = key := by
  induction type, node using nodeInduction registry source with
  | null type node _ hnull => simp [Literal.Node.key?, hnull] at hkey
  | nonNull inner node ih =>
    rw [convert_nonNull] at h
    exact ih hkey (Option.filter_eq_some_iff.mp h).1
  | reference name node hnull ih =>
    rw [convert_reference hnull] at h
    obtain ⟨target, hget, htarget⟩ := Option.bind_eq_some_iff.mp h
    exact ih target hget hkey htarget
  | list item node items hvalue _ => simp [Literal.Node.key?, hvalue] at hkey
  | lone item node hnull hlist _ => simp [convert_lone hnull hlist] at h
  | builtin scalar node hnull =>
    rw [convert_builtin hnull, toOption_eq_some] at h
    unfold Literal.Node.key? at hkey
    -- Of the scalars, only `String` and `ID` take a literal that is a key, and only a quoted one.
    cases scalar <;> cases hvalue : node.value <;> simp_all [Builtin.parseLiteral]
  | enum enum node hnull =>
    rw [convert_enum hnull] at h
    unfold EnumType.convert at h
    unfold Literal.Node.key? at hkey
    split at h
    · rename_i name hvalue
      split at h
      · simp_all
      · simp at h
    · simp at h
  | object object node given hvalue _ => simp [Literal.Node.key?, hvalue] at hkey
  | other object node hnull hobject => simp [convert_not_object hnull hobject] at h
  | union union node hnull ih =>
    rw [convert_union hnull, toOption_eq_some] at h
    obtain ⟨target, htarget, hout⟩ := parseLiteral_eq_ok_iff.mp h
    exact ih target htarget hkey hout

/-- The key that a union reads from a literal when no function decides. -/
def UnionType.literalKey? (union : UnionType) (node : Literal.Node) : Option String :=
  match union.typeKey with
  | some name => (node.field? name).bind fun field => field.value.key?
  | none => wrapperKey? node

/-- The key of a literal stands in the field that the tag of a value is read from. -/
theorem field_of_literalKey? {union : UnionType} {node : Literal.Node} {key : String}
    (h : union.literalKey? node = some key) :
    ∃ field, node.field? (union.typeKey.getD typeField) = some field ∧
      field.value.key? = some key := by
  unfold UnionType.literalKey? at h
  cases hkey : union.typeKey with
  | some name =>
    simp only [hkey] at h
    exact Option.bind_eq_some_iff.mp h
  | none =>
    simp only [hkey, UnionType.wrapperKey?] at h
    split at h
    · rename_i first second rest hfields
      split at h
      · rename_i hnames
        refine ⟨first, ?_, h⟩
        cases hvalue : node.fields? with
        | none => simp [hvalue] at hfields
        | some fields =>
          obtain rfl : fields = first :: second :: rest := by simpa [hvalue] using hfields
          simp [Literal.Node.field?, hvalue, hnames.1]
      · simp at h
    · simp at h

/-- The tag that a value still tells is the key that is read from it. -/
theorem readsKey_of_tells {union : UnionType} {value : Json} (hvalue : union.keyOfValue = none)
    (h : union.Tells value) : ∃ tag,
      value.member? (union.typeKey.getD typeField) = some (.string tag) ∧
        union.ReadsKey value tag := by
  have htruthy : ∀ {tag : String}, tag ≠ "" → (Json.string tag).isTruthy := by
    intro tag htag
    simpa [Json.isTruthy] using htag
  unfold UnionType.Tells at h
  cases hkey : union.typeKey with
  | some name =>
    simp only [hkey] at h
    obtain ⟨tag, htag, hempty⟩ := h
    exact ⟨tag, htag, .typeKey hvalue hkey htag (htruthy hempty)⟩
  | none =>
    simp only [hkey] at h
    obtain ⟨tag, payload, htag, hempty, hpayload, hpresent⟩ := h
    exact ⟨tag, htag, .wrapper hvalue hkey htag (htruthy hempty) hpayload hpresent⟩

/-- Without a function for literals, a union looks up the key that it reads. -/
theorem key_of_typeOfNode {union : UnionType} (hliteral : union.typeOfLiteral = none)
    {node : Literal.Node} {type : NamedType} (h : union.typeOfNode source node = .ok type) :
    ∃ key, union.literalKey? node = some key ∧ union.lookup.Finds key type := by
  unfold UnionType.typeOfNode UnionType.literalTarget at h
  unfold UnionType.literalKey?
  simp only [hliteral] at h
  cases hkey : union.typeKey with
  | some name =>
    simp only [hkey] at h
    cases hread : (node.field? name).bind fun field => field.value.key? with
    | none => simp [hread] at h
    | some key => exact ⟨key, hread, (resolve_eq_ok_iff union.name).mp (by simpa [hread] using h)⟩
  | none =>
    simp only [hkey] at h
    cases hread : UnionType.wrapperKey? node with
    | none => simp [hread] at h
    | some key => exact ⟨key, rfl, (resolve_eq_ok_iff union.name).mp (by simpa [hread] using h)⟩

/-- A union that a document makes finds declared candidates, and in its table. -/
theorem candidate_of_typeOfNode {union : UnionType}
    (hunion : (InputType.named (.union union)).Declared) {node : Literal.Node} {type : NamedType}
    (h : union.typeOfNode source node = .ok type) :
    ∃ key, union.literalKey? node = some key ∧ union.keyOfValue = none ∧
      union.lookup.Finds key type ∧ (InputType.named type).Declared := by
  cases hunion with
  | union hvalue hliteral hlookup hentries _ =>
    obtain ⟨key, hkey, hfinds⟩ := key_of_typeOfNode hliteral h
    refine ⟨key, hkey, hvalue, hfinds, ?_⟩
    rw [hlookup] at hfinds
    cases hfinds with
    | table hentry =>
      exact hentries (key, type) (mem_of_lookup hentry)

/-! ## Objects -/

/-- The value of a declared field, given the fields of a literal: the one of the first field of its
name, or else its default. Without either it may be left out if its type admits null. -/
def FieldBecomes (registry : Registry) (source : Source) (given : List Literal.Field)
    (field : Field) (value? : Option Json) : Prop :=
  match given.find? fun other => other.name.text = field.name with
  | some found => ∃ value, field.type.convert registry source found.value = some value ∧
      value? = some value
  | none => value? = field.default? ∧ (field.default?.isSome ∨ field.type.isNonNull = false)

theorem convertField_eq_some {given : List Literal.Field} {field : Field}
    {members : List (String × Json)} (h : convertField registry source given field = some members) :
    ∃ value?, FieldBecomes registry source given field value? ∧
      members = (value?.map fun value => (field.name, value)).toList := by
  unfold convertField at h
  unfold FieldBecomes
  cases hfind : given.find? fun other => other.name.text = field.name with
  | some found =>
    simp only [hfind] at h ⊢
    obtain ⟨value, hvalue, rfl⟩ := Option.map_eq_some_iff.mp h
    exact ⟨some value, ⟨value, hvalue, rfl⟩, rfl⟩
  | none =>
    simp only [hfind] at h ⊢
    unfold defaultMember? at h
    cases hdefault : field.default? with
    | some value =>
      simp only [hdefault, Option.some.injEq] at h
      exact ⟨some value, ⟨rfl, .inl rfl⟩, h.symm⟩
    | none =>
      simp only [hdefault] at h
      split at h
      · simp at h
      · rename_i hnull
        cases h
        exact ⟨none, ⟨rfl, .inr (by simpa using hnull)⟩, rfl⟩

/-- Each member of a converted object is what its field becomes, and there are no others. -/
theorem fieldBecomes_of_convertFields {given : List Literal.Field} {fields : List Field}
    {out : List (String × Json)} (hdistinct : (fields.map Field.name).Nodup)
    (h : convertFields registry source given fields = some out) :
    (∀ member ∈ out, ∃ field ∈ fields, field.name = member.1) ∧
      ∀ field ∈ fields, FieldBecomes registry source given field (out.lookup field.name) := by
  induction fields generalizing out with
  | nil =>
    rw [convertFields_nil] at h
    cases h
    simp
  | cons field rest ih =>
    rw [List.map_cons, List.nodup_cons] at hdistinct
    rw [convertFields_cons] at h
    obtain ⟨_, hfirst, h⟩ := Option.bind_eq_some_iff.mp h
    obtain ⟨others, hrest, rfl⟩ := Option.map_eq_some_iff.mp h
    obtain ⟨value?, hbecomes, rfl⟩ := convertField_eq_some hfirst
    obtain ⟨hmembers, hfields⟩ := ih hdistinct.2 hrest
    -- The fields that follow have other names, so their members do not count as this one.
    have hnew : others.lookup field.name = none := by
      refine List.lookup_eq_none_iff.mpr fun member hmem => ?_
      obtain ⟨other, hother, hname⟩ := hmembers member hmem
      have hne : field.name ≠ member.1 := fun heq =>
        hdistinct.1 (heq.trans hname.symm ▸ List.mem_map_of_mem hother)
      simpa using hne
    have hself : ((value?.map fun value => (field.name, value)).toList ++ others).lookup
        field.name = value? := by
      cases value? <;> simp [hnew]
    have hothers : ∀ other ∈ rest,
        ((value?.map fun value => (field.name, value)).toList ++ others).lookup other.name =
          others.lookup other.name := by
      intro other hother
      have hne : other.name ≠ field.name := fun heq =>
        hdistinct.1 (heq ▸ List.mem_map_of_mem hother)
      cases value? <;> simp [List.lookup_cons, beq_eq_false_iff_ne.mpr hne]
    refine ⟨fun member hmem => ?_, List.forall_mem_cons.mpr ⟨by rwa [hself], fun other hmem => ?_⟩⟩
    · rcases List.mem_append.mp hmem with hmem | hmem
      · obtain ⟨value, -, rfl⟩ := Option.map_eq_some_iff.mp (Option.mem_toList.mp hmem)
        exact ⟨field, List.mem_cons_self, rfl⟩
      · obtain ⟨other, hother, hname⟩ := hmembers member hmem
        exact ⟨other, List.mem_cons_of_mem _ hother, hname⟩
    · rw [hothers other hmem]
      exact hfields other hmem

/-- Only objects have fields. -/
theorem value_of_field? {node : Literal.Node} {name : String} {field : Literal.Field}
    (h : node.field? name = some field) : ∃ given, node.value = .object given ∧
      given.find? (fun other => other.name.text = name) = some field := by
  unfold Literal.Node.field? Literal.Node.fields? at h
  cases hvalue : node.value with
  | object given => exact ⟨given, rfl, by simpa [hvalue] using h⟩
  | _ => simp [hvalue] at h

/-- What a literal becomes has for a member what the field of that name becomes. -/
theorem member_of_convert {type : InputType} {node : Literal.Node} (htype : type.Declared)
    {named : NamedType} (hnamed : type = .named named) {name : String} {field : Literal.Field}
    (hfield : node.field? name = some field) {value : Json}
    (h : type.convert registry source node = some value) :
    ∃ (type' : InputType) (member : Json), value.member? name = some member ∧
      type'.convert registry source field.value = some member := by
  induction type, node using nodeInduction registry source generalizing named with
  | null type node _ hnull => simp [Literal.Node.field?, Literal.Node.fields?, hnull] at hfield
  | nonNull => simp at hnamed
  | reference => simp at hnamed
  | list => simp at hnamed
  | lone => simp at hnamed
  | builtin scalar node hnull =>
    obtain ⟨given, hvalue, -⟩ := value_of_field? hfield
    rw [convert_builtin hnull, toOption_eq_some] at h
    cases scalar <;> simp [Builtin.parseLiteral, hvalue] at h
  | enum enum node hnull =>
    obtain ⟨given, hvalue, -⟩ := value_of_field? hfield
    simp [convert_enum hnull, EnumType.convert, hvalue] at h
  | object object node given hvalue _ =>
    obtain ⟨given', hvalue', hfind⟩ := value_of_field? hfield
    obtain rfl : given = given' := by simpa [hvalue] using hvalue'
    rw [convert_object hvalue] at h
    split at h
    · rename_i hall
      obtain ⟨out, hout, rfl⟩ := Option.map_eq_some_iff.mp h
      cases htype with
      | object hdistinct _ =>
        have hdeclared := List.all_eq_true.mp hall field (List.mem_of_find?_eq_some hfind)
        have hfieldName : field.name.text = name := by simpa using List.find?_some hfind
        obtain ⟨declared, hmem, rfl⟩ : ∃ declared ∈ object.fields, declared.name = name := by
          rw [← hfieldName]
          simpa [ObjectType.field?] using hdeclared
        have hbecomes := (fieldBecomes_of_convertFields hdistinct hout).2 declared hmem
        unfold FieldBecomes at hbecomes
        simp only [hfind] at hbecomes
        obtain ⟨value, hconvert, hlookup⟩ := hbecomes
        exact ⟨declared.type, value, hlookup, hconvert⟩
    · simp at h
  | other object node hnull hobject => simp [convert_not_object hnull hobject] at h
  | union union node hnull ih =>
    rw [convert_union hnull, toOption_eq_some] at h
    obtain ⟨target, htarget, hout⟩ := parseLiteral_eq_ok_iff.mp h
    obtain ⟨_, -, -, -, hdeclared⟩ := candidate_of_typeOfNode htype htarget
    exact ih target htarget hdeclared rfl hfield hout

/-! ## Conformance -/

/-- What a built-in scalar makes of a literal is a value that it takes. -/
theorem Builtin.accepts_of_parseLiteral {scalar : Builtin} {node : Literal.Node} {value : Json}
    (h : scalar.parseLiteral source node = .ok value) : scalar.Accepts value := by
  cases scalar with
  | string =>
    simp only [parseLiteral] at h
    split at h
    · cases h
      exact ⟨_, rfl⟩
    · simp at h
  | int =>
    simp only [parseLiteral, intOfSpelling] at h
    split at h
    · split at h
      · split at h
        · rename_i n _ hint
          cases h
          have hbounds : -2147483648 ≤ n.wholeValue ∧ n.wholeValue ≤ 2147483647 := by
            simpa [isInt32] using hint
          exact ⟨_, n.wholeValue, rfl, by simp [Number.value], hbounds.1, by omega⟩
        · simp at h
      · simp at h
    · simp at h
  | float =>
    simp only [parseLiteral, floatOfSpelling] at h
    grind [Accepts]
  | boolean =>
    simp only [parseLiteral] at h
    split at h
    · cases h
      exact ⟨_, rfl⟩
    · simp at h
  | id =>
    simp only [parseLiteral] at h
    split at h
    · cases h
      exact .inl ⟨_, rfl⟩
    · cases h
      exact .inl ⟨_, rfl⟩
    · simp at h

/-- Each item of a converted list is what an item of the literal becomes. -/
theorem mem_convertItems {item : InputType} {items : List Literal.Node} {outs : List Json}
    (h : convertItems registry source item items = some outs) :
    ∀ out ∈ outs, ∃ part ∈ items, item.convert registry source part = some out := by
  induction items generalizing outs with
  | nil =>
    rw [convertItems_nil] at h
    cases h
    simp
  | cons part rest ih =>
    rw [convertItems_cons] at h
    obtain ⟨first, hfirst, h⟩ := Option.bind_eq_some_iff.mp h
    obtain ⟨others, hrest, rfl⟩ := Option.map_eq_some_iff.mp h
    refine List.forall_mem_cons.mpr ⟨⟨part, List.mem_cons_self, hfirst⟩, fun out hmem => ?_⟩
    obtain ⟨other, hother, hconvert⟩ := ih hrest out hmem
    exact ⟨other, List.mem_cons_of_mem _ hother, hconvert⟩

/-- **What a literal becomes conforms.** -/
theorem conforms_of_convert (hregistry : ∀ type ∈ registry.types, (InputType.named type).Declared)
    {type : InputType} {node : Literal.Node} (htype : type.Declared)
    (hback : ReadsBack registry source type node) {value : Json}
    (h : type.convert registry source node = some value) : type.Conforms registry value := by
  induction type, node using nodeInduction registry source generalizing value with
  | null type node hnonNull hnull =>
    rw [convert_null hnonNull hnull] at h
    cases h
    exact .null hnonNull
  | nonNull inner node ih =>
    rw [convert_nonNull] at h
    obtain ⟨hconvert, hvalue⟩ := Option.filter_eq_some_iff.mp h
    cases htype with
    | nonNull hinner =>
      exact .nonNull (by simpa using hvalue) (ih hinner (hback.of_visits .nonNull) hconvert)
  | reference name node hnull ih =>
    rw [convert_reference hnull] at h
    obtain ⟨target, hget, htarget⟩ := Option.bind_eq_some_iff.mp h
    have hdeclared := hregistry target (Registry.get?_some hget).1
    exact .reference hget (ih target hget hdeclared (hback.of_visits (.reference hget)) htarget)
  | list item node items hvalue ih =>
    rw [convert_list hvalue] at h
    obtain ⟨outs, houts, rfl⟩ := Option.map_eq_some_iff.mp h
    cases htype with
    | list hitem =>
      refine .items fun out hmem => ?_
      obtain ⟨part, hpart, hconvert⟩ := mem_convertItems houts out hmem
      exact ih part hpart hitem (hback.of_visits (.item hvalue hpart)) hconvert
  | lone item node hnull hlist ih =>
    rw [convert_lone hnull hlist] at h
    obtain ⟨out, hout, rfl⟩ := Option.map_eq_some_iff.mp h
    cases htype with
    | list hitem =>
      refine .items fun value hmem => ?_
      obtain rfl := List.mem_singleton.mp hmem
      exact ih hitem (hback.of_visits (.lone hlist)) hout
  | builtin scalar node hnull =>
    rw [convert_builtin hnull, toOption_eq_some] at h
    exact .builtin (Builtin.accepts_of_parseLiteral h)
  | enum enum node hnull =>
    rw [convert_enum hnull] at h
    unfold EnumType.convert at h
    split at h
    · split at h
      · cases h
        exact .enum ‹_›
      · simp at h
    · simp at h
  | object object node given hvalue ih =>
    rw [convert_object hvalue] at h
    split at h
    · obtain ⟨out, hout, rfl⟩ := Option.map_eq_some_iff.mp h
      cases htype with
      | object hdistinct hfields =>
        obtain ⟨hmembers, hbecomes⟩ := fieldBecomes_of_convertFields hdistinct hout
        refine .object hmembers (fun field hmem value hlookup => ?_) fun field hmem hlookup => ?_
        · have hfield := hbecomes field hmem
          unfold FieldBecomes at hfield
          rw [hlookup] at hfield
          split at hfield
          · rename_i found hfind
            obtain ⟨_, hconvert, ⟨⟩⟩ := hfield
            exact ih field hmem found hfind (hfields field hmem)
              (hback.of_visits (.field hvalue hmem hfind)) hconvert
          · rename_i hfind
            exact hback.defaults object node given field value .here hvalue hmem hfind hfield.1.symm
        · have hfield := hbecomes field hmem
          unfold FieldBecomes at hfield
          rw [hlookup] at hfield
          split at hfield
          · simp at hfield
          · exact hfield.2
    · simp at h
  | other object node hnull hobject => simp [convert_not_object hnull hobject] at h
  | union union node hnull ih =>
    rw [convert_union hnull, toOption_eq_some] at h
    obtain ⟨target, htarget, hout⟩ := parseLiteral_eq_ok_iff.mp h
    obtain ⟨key, hkey, hvalue, hfinds, hdeclared⟩ := candidate_of_typeOfNode htype htarget
    have hconforms := ih target htarget hdeclared (hback.of_visits (.candidate htarget)) hout
    -- The tag that the value tells is the key of the literal, so it leads to the same candidate.
    obtain ⟨tag, htag, hreads⟩ := readsKey_of_tells hvalue (hback.tags union node value .here h)
    obtain ⟨field, hfield, hfieldKey⟩ := field_of_literalKey? hkey
    obtain ⟨type', member, hmember, hconvert⟩ := member_of_convert hdeclared rfl hfield hout
    obtain rfl : member = .string tag := by simpa [htag] using hmember.symm
    obtain rfl := key_of_convert hfieldKey hconvert
    exact .union hreads hfinds hconforms

/-- **What literals are accepted for, values are accepted for.** Let a union that a document makes
take a literal. Where the value that the literal becomes still tells its candidates, and the
defaults that are filled in conform, the union takes that value as well and keeps it. -/
theorem parseValue_of_parseLiteral {document : Document} {schema : Schema}
    (hbuild : document.build = .ok schema) {union : UnionType} (hunion : union ∈ schema.unions)
    {node : Literal.Node} {value : Json}
    (hliteral : union.parseLiteral schema.registry source node = .ok value)
    (hback : ReadsBack schema.registry source (.named (.union union)) node) :
    union.parseValue schema.registry value = .ok value := by
  have hschema := Document.declared_of_build hbuild
  have hdeclared := hschema.unions union hunion
  obtain ⟨target, htarget, hconvert⟩ := parseLiteral_eq_ok_iff.mp hliteral
  -- A union finds no candidate for a null literal.
  have hnode : node.value ≠ .null := by
    intro hnull
    obtain ⟨key, hkey, -⟩ := candidate_of_typeOfNode hdeclared htarget
    obtain ⟨field, hfield, -⟩ := field_of_literalKey? hkey
    obtain ⟨given, hgiven, -⟩ := value_of_field? hfield
    simp [hnull] at hgiven
  have hnamed :
      (InputType.named (.union union)).convert schema.registry source node = some value := by
    rw [convert_union hnode, toOption_eq_some]
    exact hliteral
  have hconforms := conforms_of_convert hschema.types hdeclared hback hnamed
  have hvalue : value ≠ .null := fun hnull => convert_ne_null hnode (hnull ▸ hnamed)
  obtain ⟨type, htype, hcandidate⟩ := (conforms_union_iff hvalue).mp hconforms
  have hcoerce := (coerce_eq_ok_iff schema.registry (.named type) value _).mpr ⟨hcandidate, rfl⟩
  exact parseValue_eq_ok_iff.mpr ⟨⟨type, _, htype, hcoerce⟩, rfl⟩

end

/-! ## A union of wrapped strings -/

/-- A union of wrapped strings. -/
def wrappedStrings : UnionDef := ⟨"u", none, none, .byName ["String"]⟩

/-- The schema with that union alone. -/
def wrappedSchema : Schema :=
  Document.withUnion ⟨Registry.builtins, []⟩ (wrappedStrings.unionOf [.builtin .string])

theorem build_wrappedStrings : Document.build ⟨[.union wrappedStrings]⟩ = .ok wrappedSchema := by
  cbv

/-- A wrapped string, as it is written in a text. -/
def wrappedNode : Literal.Node :=
  ⟨.object
    [⟨⟨"_type_", ⟨1, 7⟩⟩, ⟨.string "String", ⟨8, 16⟩⟩, ⟨1, 16⟩⟩,
      ⟨⟨"_value_", ⟨17, 24⟩⟩, ⟨.string "x", ⟨25, 28⟩⟩, ⟨17, 28⟩⟩], ⟨0, 29⟩⟩

/-- The value that it becomes. -/
def wrappedValue : Json := .object [("_type_", .string "String"), ("_value_", .string "x")]

theorem parseValue_of_parseLiteral_wrapped :
    (wrappedStrings.unionOf [.builtin .string]).parseValue wrappedSchema.registry wrappedValue =
      .ok wrappedValue := by
  have hliteral : (wrappedStrings.unionOf [.builtin .string]).parseLiteral wrappedSchema.registry
      ⟨"", ""⟩ wrappedNode = .ok wrappedValue := by
    cbv
  have htype : (wrappedStrings.unionOf [.builtin .string]).typeOfNode ⟨"", ""⟩ wrappedNode =
      .ok (.object (wrapperOf "String" (.builtin .string))) := by
    cbv
  -- From the union the conversion gets to the wrapper, and from there to strings only.
  have hvisits : ∀ {type part}, Visits wrappedSchema.registry ⟨"", ""⟩
      (.named (.object (wrapperOf "String" (.builtin .string)))) wrappedNode type part →
        type = .named (.object (wrapperOf "String" (.builtin .string))) ∨
          type = .named (.builtin .string) := by
    intro type part h
    cases h with
    | here => exact .inl rfl
    | field _ hmem _ h =>
      rcases List.mem_pair.mp hmem with rfl | rfl <;> cases h <;> exact .inr rfl
  refine parseValue_of_parseLiteral build_wrappedStrings (List.mem_singleton.mpr rfl) hliteral
    ⟨?_, ?_⟩
  · intro union part value h hparse
    cases h with
    | here =>
      cases hliteral.symm.trans hparse
      exact ⟨"String", .string "x", rfl, by decide, rfl, rfl⟩
    | candidate htarget h =>
      cases htype.symm.trans htarget
      simpa using hvisits h
  · intro object part given field value h _ hmem _ hdefault
    cases h with
    | candidate htarget h =>
      cases htype.symm.trans htarget
      obtain rfl : object = wrapperOf "String" (.builtin .string) := by simpa using hvisits h
      rcases List.mem_pair.mp hmem with rfl | rfl <;> simp at hdefault

/-- A literal may leave the payload of a wrapper null. What it becomes is no value of the union. -/
theorem not_parseValue_of_parseLiteral : ¬∀ (document : Document) (schema : Schema)
    (union : UnionType) (source : Source) (node : Literal.Node) (value : Json),
    document.build = .ok schema → union ∈ schema.unions →
      Literal.parse source.body = .ok node →
        union.parseLiteral schema.registry source node = .ok value →
          union.parseValue schema.registry value = .ok value := by
  intro h
  have hread := h ⟨[.union wrappedStrings]⟩ wrappedSchema
    (wrappedStrings.unionOf [.builtin .string])
    ⟨"input", "\x7b_type_:\"String\",_value_:null\x7d"⟩
    ⟨.object
      [⟨⟨"_type_", ⟨1, 7⟩⟩, ⟨.string "String", ⟨8, 16⟩⟩, ⟨1, 16⟩⟩,
        ⟨⟨"_value_", ⟨17, 24⟩⟩, ⟨.null, ⟨25, 29⟩⟩, ⟨17, 29⟩⟩], ⟨0, 30⟩⟩
    (.object [("_type_", .string "String"), ("_value_", .null)])
    build_wrappedStrings (List.mem_singleton.mpr rfl) (by cbv) (by cbv)
  have hrefused : (wrappedStrings.unionOf [.builtin .string]).parseValue wrappedSchema.registry
      (.object [("_type_", .string "String"), ("_value_", .null)]) =
        .error (.malformedUnionValue "u") := by
    cbv
  simp only [hrefused, reduceCtorEq] at hread

end TaggedUnion
