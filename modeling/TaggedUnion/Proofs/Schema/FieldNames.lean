import TaggedUnion.Proofs.Coercion.ReadBack
import TaggedUnion.Proofs.Literal.Printing
import TaggedUnion.Proofs.Literal.Quotation
import TaggedUnion.Proofs.Literal.Viability
import TaggedUnion.Proofs.Schema.Closure
import TaggedUnion.Proofs.Schema.Evolution

/-!
# Names in a schema

Types and unions are registered under names that obey the name rule. The names of fields are taken
as the document gives them, so an object can have a field that no literal can name.

* `Literal.Node.IsRead`: the literals that are read from texts.
* `Literal.writable_iff`: their fields have the names that obey the rule, and no others.
* `Schema.WellNamed`: every name of a schema obeys the rule.
* `mem_fieldNames_iff`: the fields of a schema have the names that are declared.
* `names_of_build`: which names of a schema obey the rule, and what becomes of the others.
-/

namespace TaggedUnion

/-! ## Names in literals -/

namespace Literal

/-- The literals that are read from texts, those inside others included. -/
def Node.IsRead (node : Node) : Prop := ∃ text whole, parse text = .ok whole ∧ whole.Part node

/-- A field of that name can be written in a literal. -/
def Writable (name : String) : Prop := ∃ node : Node, node.IsRead ∧ (node.field? name).isSome

/-- Name tokens obey the name rule. -/
theorem isNameChars_of_lexed {position : Nat} {cs text : List Char} {tokens : List Token}
    {span : Span} (h : Lexed position cs tokens) (hmem : ⟨.name, span, text⟩ ∈ tokens) :
    Text.isNameChars text := by
  cases h.isProper _ hmem nofun with
  | mark hmark => cases isMark_of_mark? hmark
  | name hname => exact hname

/-- The fields of a literal have names that obey the rule. -/
theorem Node.IsRead.isName {node : Node} {given : List Field} (h : node.IsRead)
    (hvalue : node.value = .object given) {field : Field} (hmem : field ∈ given) :
    Text.isName field.name.text := by
  obtain ⟨text, whole, hparse, hpart⟩ := h
  obtain ⟨tokens, htokens, hderives, -⟩ := parse_eq_ok_iff.mp hparse
  have hlexed : Lexed 0 text.toList tokens := tokenizeFrom_eq_ok_iff.mp htokens
  obtain ⟨before, inner, after, rfl, hinner, -⟩ := hderives.part hpart
  cases hinner with
  | single h => cases h <;> simp at hvalue
  | list => simp at hvalue
  | @object opening closing parts _ _ hnames =>
    cases hvalue
    -- The name of the field is the text of a name token, and this token is one of the whole text.
    obtain ⟨⟨⟨kind, span, text⟩, colon, tokens, value⟩, hpart, rfl⟩ := List.mem_map.mp hmem
    obtain rfl : kind = .name := hnames _ hpart
    have hword : ⟨.name, span, text⟩ ∈ parts.flatMap FieldPart.word :=
      List.mem_flatMap.mpr ⟨_, hpart, List.mem_cons_self⟩
    have hname : Text.isNameChars text :=
      isNameChars_of_lexed hlexed (List.mem_append_right before
        (List.mem_append_left after (List.mem_cons_of_mem opening
          (List.mem_append_left [closing] hword))))
    simpa [FieldPart.field, Text.isName] using hname

/-- The object literal with one field, which is null. -/
def single (name : String) : Node :=
  ⟨.object [⟨⟨name, default⟩, ⟨.null, default⟩, default⟩], default⟩

/-- It is read from a text if the name of the field obeys the rule. -/
theorem exists_parse_single {name : String} (hname : Text.isName name) :
    ∃ text read, parse text = .ok read ∧ read.spanless = (single name).spanless := by
  have hwritable : (single name).IsWritable :=
    .object (by simpa using hname) (by simpa using Node.IsWritable.null)
  have hspell := fun contents : String => quotes_escaped contents.toList
  obtain ⟨text, tokens, htext, htokens⟩ := exists_tokenize (hwritable.isProper hspell)
  obtain ⟨read, hread⟩ := hwritable.rebuilds hspell htokens
  have hdepth : (single name).depth = 1 := by
    simp [single, Node.depth, Value.depth, depthOfFields]
  have hshallow : Shallow tokens := shallow_iff_fits.mpr (hread.fits 0 (by rw [hdepth]; decide))
  exact ⟨text, read, parse_eq_ok_iff.mpr ⟨tokens, htext, hread.derives, hshallow⟩, hread.same⟩

/-- **The names that can be written for fields** are those that obey the name rule. -/
theorem writable_iff {name : String} : Writable name ↔ Text.isName name := by
  constructor
  · rintro ⟨node, hread, hfield⟩
    obtain ⟨field, hfield⟩ := Option.isSome_iff_exists.mp hfield
    obtain ⟨given, hvalue, hfind⟩ := value_of_field? hfield
    have hname : field.name.text = name := by simpa using List.find?_some hfind
    exact hname ▸ hread.isName hvalue (List.mem_of_find?_eq_some hfind)
  · intro hname
    obtain ⟨text, read, hparse, hsame⟩ := exists_parse_single hname
    refine ⟨read, ⟨text, read, hparse, .here⟩, ?_⟩
    have hfield : read.spanless.field? name = (read.field? name).map Field.spanless :=
      Node.field?_spanless
    rw [hsame, Node.field?_spanless] at hfield
    have hsome := congrArg Option.isSome hfield
    rw [Option.isSome_map, Option.isSome_map] at hsome
    rw [← hsome]
    simp [single, Node.field?, Node.fields?]

end Literal

/-- Every literal leaves out a field whose name breaks the rule, so that it has its default. -/
theorem lookup_of_not_isName {registry : Registry} {source : Source} {object : ObjectType}
    {node : Literal.Node} {members : List (String × Json)} {field : Field}
    (hdistinct : (object.fields.map Field.name).Nodup) (hread : node.IsRead)
    (hfield : field ∈ object.fields) (hname : ¬Text.isName field.name)
    (h : (InputType.named (.object object)).convert registry source node =
      some (.object members)) :
    members.lookup field.name = field.default? ∧
      (field.default?.isSome ∨ field.type.isNonNull = false) := by
  have hnull : node.value ≠ .null := by
    intro hnull
    rw [convert_null rfl hnull] at h
    cases h
  obtain ⟨given, hvalue⟩ : ∃ given, node.value = .object given := by
    by_contra hobject
    rw [convert_not_object hnull fun given hvalue => hobject ⟨given, hvalue⟩] at h
    cases h
  rw [convert_object hvalue] at h
  split at h
  · obtain ⟨out, hout, heq⟩ := Option.map_eq_some_iff.mp h
    cases heq
    have hbecomes := (fieldBecomes_of_convertFields hdistinct hout).2 field hfield
    -- The names in the literal obey the rule, so this one is not among them.
    have hnone : given.find? (fun other => other.name.text = field.name) = none := by
      refine List.find?_eq_none.mpr fun other hmem heq => hname ?_
      exact of_decide_eq_true heq ▸ hread.isName hvalue hmem
    unfold FieldBecomes at hbecomes
    rwa [hnone] at hbecomes
  · cases h

/-! ## Names in schemas -/

/-- Every name of a schema obeys the name rule. -/
structure Schema.WellNamed (schema : Schema) : Prop where
  types : ∀ type ∈ schema.registry.types, Text.isName type.name
  unions : ∀ union ∈ schema.unions, Text.isName union.name
  fields : ∀ object, .object object ∈ schema.registry.types → ∀ field ∈ object.fields,
    Text.isName field.name

namespace Document

variable {document : Document} {schema : Schema}

/-- What is registered has a name that obeys the rule. -/
theorem isName_of_registered (hbuild : document.build = .ok schema) {type : NamedType}
    (hmem : type ∈ schema.registry.types) : Text.isName type.name := by
  have hwellFormed := wellFormed_of_build hbuild
  rcases registered_of_build hbuild hmem with
    ⟨scalar, rfl⟩ | ⟨declaration, hdeclared, hmakes⟩ | ⟨declaration, hdeclared, types, -, rfl⟩
  · cases scalar <;> rfl
  · exact hmakes.name_eq ▸ hwellFormed.name declaration hdeclared
  · have hname : Text.isName declaration.name := hwellFormed.name (.union declaration) hdeclared
    exact hname

/-- The fields of the registered objects have the names that the document declares for fields. -/
theorem mem_fieldNames_iff (hbuild : document.build = .ok schema) {name : String} :
    (∃ object, .object object ∈ schema.registry.types ∧ ∃ field ∈ object.fields,
        field.name = name) ↔
      ∃ declaration, .object declaration ∈ document.types ∧ ∃ field ∈ declaration.fields,
        field.1 = name := by
  constructor
  · rintro ⟨object, hmem, field, hfield, rfl⟩
    rcases registered_of_build hbuild hmem with
      ⟨_, ⟨⟩⟩ | ⟨declaration, hdeclared, hmakes⟩ | ⟨_, -, _, -, ⟨⟩⟩
    cases hmakes with
    | object hobject =>
      obtain ⟨-, -, -, hmade⟩ := objectType_eq_ok_iff.mp hobject
      obtain ⟨first, hfirst, -, hname, -⟩ := exists_declared hmade hfield
      exact ⟨_, hdeclared, first, hfirst, hname.symm⟩
  · rintro ⟨declaration, hdeclared, first, hfirst, rfl⟩
    obtain ⟨object, hobject⟩ := exists_objectType_of_build hbuild hdeclared
    have hmem := (Registry.get?_some (get?_of_makesType hbuild hdeclared (.object hobject))).1
    obtain ⟨-, -, -, hmade⟩ := objectType_eq_ok_iff.mp hobject
    have hname : first.1 ∈ object.fields.map Field.name :=
      (names_of_makesFields hmade).1 ▸ List.mem_map_of_mem hfirst
    obtain ⟨field, hfield, hname⟩ := List.mem_map.mp hname
    exact ⟨object, hmem, field, hfield, hname⟩

/-- **Which names of a schema obey the name rule.** Those of types and of unions always do. Those of
fields are not looked at, so all names obey the rule exactly if all fields are declared with such
names. A field can be written in a literal exactly if its name obeys the rule. One that cannot be
written has its default in every object that a literal converts to. If it has none and must be
given, no literal converts to an object. -/
theorem names_of_build (hbuild : document.build = .ok schema) :
    (∀ type ∈ schema.registry.types, Text.isName type.name) ∧
    (∀ union ∈ schema.unions, Text.isName union.name) ∧
    (schema.WellNamed ↔ ∀ declaration, .object declaration ∈ document.types →
      ∀ field ∈ declaration.fields, Text.isName field.1) ∧
    ∀ object, .object object ∈ schema.registry.types → ∀ field ∈ object.fields,
      (Literal.Writable field.name ↔ Text.isName field.name) ∧
      (¬Text.isName field.name → ∀ source (node : Literal.Node) members, node.IsRead →
        (InputType.named (.object object)).convert schema.registry source node =
            some (.object members) →
          members.lookup field.name = field.default? ∧
            (field.default?.isSome ∨ field.type.isNonNull = false)) := by
  have htypes : ∀ type ∈ schema.registry.types, Text.isName type.name :=
    fun type hmem => isName_of_registered hbuild hmem
  have hunions : ∀ union ∈ schema.unions, Text.isName union.name := fun union hmem =>
    htypes (.union union) ((mem_unions_iff_of_build hbuild).mp hmem)
  refine ⟨htypes, hunions, ⟨fun h => ?_, fun h => ⟨htypes, hunions, ?_⟩⟩, ?_⟩
  · intro declaration hdeclared first hfirst
    obtain ⟨object, hmem, field, hfield, hname⟩ :=
      (mem_fieldNames_iff hbuild).mpr ⟨declaration, hdeclared, first, hfirst, rfl⟩
    exact hname ▸ h.fields object hmem field hfield
  · intro object hmem field hfield
    obtain ⟨declaration, hdeclared, first, hfirst, hname⟩ :=
      (mem_fieldNames_iff hbuild).mp ⟨object, hmem, field, hfield, rfl⟩
    exact hname ▸ h declaration hdeclared first hfirst
  · intro object hmem field hfield
    refine ⟨Literal.writable_iff, fun hname source node members hread hconvert => ?_⟩
    have hdeclared := (declared_of_build hbuild).types _ hmem
    cases hdeclared with
    | object hdistinct _ => exact lookup_of_not_isName hdistinct hread hfield hname hconvert

/-- Tasks have a title, and must have a date, the name of which breaks the rule. -/
def taskType : ObjectType :=
  ⟨"Task", none, [⟨"title", .reference "String", none, none⟩,
    ⟨"due-date", .nonNull (.reference "String"), none, none⟩]⟩

/-- A document that declares tasks. -/
def taskDocument : Document :=
  ⟨[.object ⟨"Task", none, [("title", ⟨"String", none, none⟩),
    ("due-date", ⟨"String!", none, none⟩)]⟩]⟩

/-- The schema of that document. -/
def taskSchema : Schema := ⟨afterBuiltins [.object taskType], []⟩

theorem build_taskDocument : taskDocument.build = .ok taskSchema := by
  cbv

theorem taskType_mem : .object taskType ∈ taskSchema.registry.types :=
  List.mem_append_right _ List.mem_cons_self

theorem dueDate_mem : ⟨"due-date", .nonNull (.reference "String"), none, none⟩ ∈ taskType.fields :=
  List.mem_cons_of_mem _ List.mem_cons_self

/-- No literal converts to a task, as none can give the date. -/
theorem names_of_build_task : ¬taskSchema.WellNamed ∧ Literal.Writable "title" ∧
    ¬Literal.Writable "due-date" ∧ ∀ source (node : Literal.Node) members, node.IsRead →
      (InputType.named (.object taskType)).convert taskSchema.registry source node ≠
        some (.object members) := by
  obtain ⟨-, -, hwellNamed, hfields⟩ := names_of_build build_taskDocument
  obtain ⟨htitle, -⟩ := hfields taskType taskType_mem _ List.mem_cons_self
  obtain ⟨hdate, hleftOut⟩ := hfields taskType taskType_mem _ dueDate_mem
  refine ⟨fun h => ?_, htitle.mpr (by decide), mt hdate.mp (by decide), ?_⟩
  · have hdeclared := hwellNamed.mp h _ List.mem_cons_self _
      (List.mem_cons_of_mem _ List.mem_cons_self)
    exact absurd hdeclared (by decide)
  · intro source node members hread hconvert
    obtain ⟨-, hdefault | hnull⟩ := hleftOut (by decide) source node members hread hconvert
    · cases hdefault
    · cases hnull

/-- Not every schema that is built has only names that obey the rule. -/
theorem not_wellNamed_of_build : ¬∀ (document : Document) (schema : Schema),
    document.build = .ok schema → schema.WellNamed := by
  intro h
  have hwellNamed := h taskDocument taskSchema build_taskDocument
  exact absurd (hwellNamed.fields taskType taskType_mem _ dueDate_mem) (by decide)

end Document

end TaggedUnion
