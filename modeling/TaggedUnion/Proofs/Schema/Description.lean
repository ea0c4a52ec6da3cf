import TaggedUnion.Proofs.Json.Compact
import TaggedUnion.Proofs.Schema.PostOrder
import TaggedUnion.Schema.Reader

/-!
# Descriptions are documents

The description of a schema says of each type what its declaration said, apart from what the fields
of objects have besides their types. Without the built-in scalars it is a document itself.

* `NamedType.entry`: the description of a type, said without the schema.
* `describe_of_build`: what a schema is described by.
* `Json.withoutScalars`: the description without the scalars.
* `NamedType.redeclared?`: the declaration that a description repeats.
* `read_entries`: descriptions of types are read as declarations.
-/

namespace TaggedUnion

/-! ## What is said of a type -/

namespace NamedType

/-- The kind that a description gives. Unions have one of their own. -/
def describedKind : NamedType → String
  | union _ => "union"
  | type => type.kind.text

/-- The members of a description that depend on the kind. -/
def describedParts : NamedType → List (String × Json)
  | union u => Schema.candidatesOf u
  | type => Schema.partsOf type

/-- The member for the description text, if there is one. -/
def describedText (type : NamedType) : List (String × Json) :=
  match type.description with
  | some text => [("description", .string text)]
  | none => []

/-- The description of a type, a union being one that is known by name. -/
def entry (type : NamedType) : Json :=
  .object (("name", .string type.name) :: ("kind", .string type.describedKind) ::
    (type.describedParts ++ type.describedText))

/-- The declaration that repeats the description of a type. Scalars have none, and neither have
unions that list no candidates. -/
def redeclared? : NamedType → Option TypeDef
  | builtin _ => none
  | union u => u.lookup.keys?.map fun keys =>
    .union ⟨u.name, u.description, u.typeKey, .byName keys⟩
  | object o => some (.object ⟨o.name, o.description,
      o.fields.map fun field => (field.name, { typeText := field.type.text })⟩)
  | enum e => some (.enum ⟨e.name, e.description, e.values⟩)

end NamedType

/-- Whether the description of a type says that it is a scalar. -/
def Json.isScalarEntry (entry : Json) : Bool :=
  match entry.member? "kind" with
  | some (.string kind) => kind = TypeKind.scalar.text
  | _ => false

/-- The description of a schema without the scalars. -/
def Json.withoutScalars (description : Json) : Json :=
  match description.member? "types" with
  | some (.array entries) =>
    .object [("types", .array (entries.filter fun entry => !entry.isScalarEntry))]
  | _ => description

/-- Only the built-in scalars are described as scalars. -/
theorem isScalarEntry_entry {type : NamedType} :
    type.entry.isScalarEntry ↔ ∃ scalar, type = .builtin scalar := by
  cases type <;>
    simp [NamedType.entry, Json.isScalarEntry, Json.member?, List.lookup, NamedType.describedKind,
      NamedType.kind, TypeKind.text]

theorem withoutScalars_entries {types : List NamedType} :
    (Json.object [("types", .array (types.map NamedType.entry))]).withoutScalars =
      .object [("types",
        .array ((types.filter fun type => !type.entry.isScalarEntry).map NamedType.entry))] := by
  simp [Json.withoutScalars, Json.member?, List.lookup, List.filter_map, Function.comp_def]

namespace Document

section Describing

variable {document : Document} {schema : Schema}

/-- The union of a name is the one that is registered under it. -/
theorem union?_eq_some_iff (hbuild : document.build = .ok schema) {name : String}
    {union : UnionType} :
    schema.union? name = some union ↔ schema.registry.get? name = some (.union union) := by
  have hget : ∀ {other}, schema.union? name = some other →
      schema.registry.get? name = some (.union other) := by
    intro other hunion
    have hmem := (mem_unions_iff_of_build hbuild).mp (List.mem_of_find?_eq_some hunion)
    obtain rfl : other.name = name := by simpa using List.find?_some hunion
    exact (mem_types_iff_get? hbuild).mp hmem
  refine ⟨hget, fun hregistered => ?_⟩
  obtain ⟨hmem, rfl⟩ := Registry.get?_some hregistered
  have hknown := (mem_unions_iff_of_build hbuild).mpr hmem
  cases hunion : schema.union? (NamedType.union union).name with
  | none => simpa [NamedType.name] using List.find?_eq_none.mp hunion union hknown
  | some other =>
    obtain rfl := NamedType.union.inj (Option.some.inj ((hget hunion).symm.trans hregistered))
    rfl

theorem union?_eq_none (hbuild : document.build = .ok schema) {name : String} {type : NamedType}
    (hget : schema.registry.get? name = some type) (htype : ∀ union, type ≠ .union union) :
    schema.union? name = none := by
  refine Option.eq_none_iff_forall_ne_some.mpr fun union hunion => htype union ?_
  exact Option.some.inj (hget.symm.trans ((union?_eq_some_iff hbuild).mp hunion))

/-- The description of a registered type does not depend on the rest of the schema. -/
theorem describeType_of_build (hbuild : document.build = .ok schema) {type : NamedType}
    (hmem : type ∈ schema.registry.types) : schema.describeType type = type.entry := by
  have hget := (mem_types_iff_get? hbuild).mp hmem
  cases type with
  | union union =>
    have hunion := (union?_eq_some_iff hbuild).mpr hget
    rw [Schema.describeType, hunion]
    rfl
  | builtin scalar | object object | enum enum =>
    have hnone := union?_eq_none hbuild hget nofun
    rw [Schema.describeType, hnone, Option.map_none, Option.getD_none, List.append_nil,
      List.append_assoc]
    rfl

/-- A schema is described type by type. -/
theorem describe_of_build (hbuild : document.build = .ok schema) :
    schema.describe = .object [("types", .array (schema.registry.types.map NamedType.entry))] := by
  rw [Schema.describe, List.map_congr_left fun type hmem => describeType_of_build hbuild hmem]

end Describing

/-! ## Reading declarations -/

section Parts

/-- Strings are read one by one. -/
theorem strings_map_string {values : List String} :
    Reading.strings (.array (values.map .string)) = .ok values := by
  rw [Reading.strings]
  induction values with
  | nil => rfl
  | cons value rest ih =>
    rw [List.map_cons, List.mapM_cons, ih]
    rfl

theorem pairs_map_string {fields : List Field} :
    Reading.pairs FieldDef.ofJson (.object (fields.map fun field =>
        (field.name, .string field.type.text))) =
      .ok (fields.map fun field => (field.name, { typeText := field.type.text })) := by
  rw [Reading.pairs]
  induction fields with
  | nil => rfl
  | cons field rest ih =>
    rw [List.map_cons, List.mapM_cons, ih]
    rfl

theorem string?_textOrNull {text : Option String} :
    Reading.string? (Schema.textOrNull text) = .ok text := by
  cases text <;> rfl

theorem candidateNames_ofJson {keys : List String} :
    CandidateNames.ofJson (.array (keys.map .string)) = .ok (.byName keys) := by
  simp [CandidateNames.ofJson, strings_map_string, Except.map, Except.mapError]

end Parts

/-- The kind of a declaration. -/
def kindOf : TypeDef → DefKind
  | .object _ => .object
  | .enum _ => .enum
  | .union _ => .union

section Members

variable {type : NamedType} {kind : DefKind} {parts : DefParts}

theorem foldlM_describedText (h : parts.description = none) :
    type.describedText.foldlM (DefParts.addMember kind) parts =
      .ok { parts with description := type.description.map some } := by
  unfold NamedType.describedText
  cases type.description with
  | none =>
    rw [Option.map_none, ← h]
    rfl
  | some text =>
    simp [DefParts.addMember, DefParts.fresh, h, Reading.string?, Reading.string, Except.map, bind,
      Except.bind, pure, Except.pure]

/-- The description text is added to what the other members say. -/
theorem ofMembers_eq_finish
    (hparts : (("name", .string type.name) :: type.describedParts).foldlM
      (DefParts.addMember kind) {} = .ok parts) (hdescription : parts.description = none) :
    TypeDef.ofMembers kind
        (("name", .string type.name) :: (type.describedParts ++ type.describedText)) =
      DefParts.finish kind { parts with description := type.description.map some } := by
  rw [TypeDef.ofMembers, ← List.cons_append, List.foldlM_append, hparts]
  exact congrArg (Except.bind · (DefParts.finish kind)) (foldlM_describedText hdescription)

/-- **The members of a description are those of the declaration that it repeats.** -/
theorem ofMembers_entry {declaration : TypeDef} (h : type.redeclared? = some declaration) :
    TypeDef.ofMembers (kindOf declaration)
        (("name", .string type.name) :: (type.describedParts ++ type.describedText)) =
      .ok declaration := by
  cases type with
  | builtin => simp [NamedType.redeclared?] at h
  | object object =>
    cases h
    have hparts : [("name", .string object.name), ("fields", .object (object.fields.map fun field =>
        (field.name, .string field.type.text)))].foldlM (DefParts.addMember .object) {} =
          .ok { name := some object.name, fields := some (object.fields.map fun field =>
            (field.name, { typeText := field.type.text })) } := by
      simp [DefParts.addMember, DefParts.fresh, Reading.string, pairs_map_string, Except.map, bind,
        Except.bind, pure, Except.pure]
    refine (ofMembers_eq_finish hparts rfl).trans ?_
    obtain ⟨name, description, fields⟩ := object
    cases description <;> rfl
  | enum enum =>
    cases h
    have hparts : [("name", .string enum.name), ("values", .array (enum.values.map .string))].foldlM
        (DefParts.addMember .enum) {} =
          .ok { name := some enum.name, values := some enum.values } := by
      simp [DefParts.addMember, DefParts.fresh, Reading.string, strings_map_string, Except.map,
        bind, Except.bind, pure, Except.pure]
    refine (ofMembers_eq_finish hparts rfl).trans ?_
    obtain ⟨name, description, values⟩ := enum
    cases description <;> rfl
  | union union =>
    obtain ⟨keys, hkeys, rfl⟩ := Option.map_eq_some_iff.mp h
    have hparts : (("name", .string union.name) :: Schema.candidatesOf union).foldlM
        (DefParts.addMember .union) {} =
          .ok { name := some union.name, typeKey := some union.typeKey,
                inputTypes := some (.byName keys) } := by
      simp [Schema.candidatesOf, hkeys, DefParts.addMember, DefParts.fresh, Reading.string,
        string?_textOrNull, candidateNames_ofJson, Except.map, bind, Except.bind, pure, Except.pure]
    refine (ofMembers_eq_finish hparts rfl).trans ?_
    obtain ⟨name, description, typeKey⟩ := union
    cases description <;> rfl

end Members

/-! ## Reading the text -/

section Text

variable {path : List Json.PathStep} {first : Bool} {kind : DefKind} {cs rest : List Char}
  {depth : Nat}

theorem readColon_cons : readColon path (':' :: rest) = .ok rest := by
  rw [readColon, Json.readColon_cons]

theorem readPart_compact {value : Json} (h : value.IsPlain depth)
    (hroom : partDepth + depth < Json.depthLimit) :
    readPart path (value.compact.toList ++ rest) = .ok (value, rest) := by
  rw [readPart, Json.readValue_compact h hroom]

/-- The kind of a declaration is read by its name. -/
theorem readKind_compact {text : String} (h : DefKind.ofName? text = some kind) :
    readKind path ((Json.string text).compact.toList ++ rest) = .ok (kind, rest) := by
  have hread : Json.readString (text.toList.flatMap Json.escaped ++ '"' :: rest) = _ :=
    Json.readString_quotes (Literal.quotes_escaped _) Json.plain_flatMap_escaped
  have hblank : Json.isBlank '"' = false := rfl
  simp [readKind, Json.toList_compact_string, Json.skipBlanks_cons hblank, hread, h]

/-- A part is read and put in front of those that are known. -/
theorem readMembers_part {known : List (String × Json)} {kind? : Option DefKind}
    {member : String × Json}
    (hstart : Json.readMemberStart first cs = Json.readName (Json.memberText member ++ rest))
    (hname : member.1 ≠ "kind") (hplain : member.2.IsPlain depth)
    (hroom : partDepth + depth < Json.depthLimit) :
    readMembers path first kind? known cs =
      readMembers path false kind? (member :: known) rest := by
  rw [Json.readName_member] at hstart
  rw [readMembers.eq_def]
  split
  · rename_i h
    cases hstart.symm.trans h
  · rename_i h
    cases hstart.symm.trans h
  · rename_i h
    cases hstart.symm.trans h
    simp only [hname, false_and, ↓reduceIte]
    split
    · rename_i h
      cases readColon_cons.symm.trans h
    · rename_i h
      obtain rfl := Except.ok.inj (readColon_cons.symm.trans h)
      split
      · rename_i h
        cases (readPart_compact hplain hroom).symm.trans h
      · rename_i h
        cases (readPart_compact hplain hroom).symm.trans h
        rfl

theorem readMembers_kind {known : List (String × Json)} {text : String}
    (hstart : Json.readMemberStart first cs =
      Json.readName (Json.memberText ("kind", .string text) ++ rest))
    (hkind : DefKind.ofName? text = some kind) :
    readMembers path first none known cs = readMembers path false (some kind) known rest := by
  rw [Json.readName_member] at hstart
  rw [readMembers.eq_def]
  split
  · rename_i h
    cases hstart.symm.trans h
  · rename_i h
    cases hstart.symm.trans h
  · rename_i h
    cases hstart.symm.trans h
    simp only [Option.isSome_none, Bool.false_eq_true, and_false, ↓reduceIte]
    split
    · rename_i h
      cases readColon_cons.symm.trans h
    · rename_i h
      obtain rfl := Except.ok.inj (readColon_cons.symm.trans h)
      split
      · rename_i h
        cases (readKind_compact hkind).symm.trans h
      · rename_i h
        cases (readKind_compact hkind).symm.trans h
        rfl

/-- Behind the kind, the other members are read to the end of the object. -/
theorem readMembers_more {known members : List (String × Json)}
    (hnames : ∀ member ∈ members, member.1 ≠ "kind")
    (hplain : ∀ member ∈ members, member.2.IsPlain depth)
    (hroom : partDepth + depth < Json.depthLimit) :
    readMembers path false (some kind) known (Json.moreMembers members ++ '\x7d' :: rest) =
      .ok (TypeDef.ofMembers kind (known.reverse ++ members), rest) := by
  induction members generalizing known with
  | nil =>
    have hclose : Json.readMemberStart false ('\x7d' :: rest) = .ok (.close rest) :=
      Json.readMemberStart_close Json.blank_nil
    rw [Json.moreMembers, List.flatMap_nil, List.nil_append, readMembers.eq_def]
    split
    · rename_i h
      cases hclose.symm.trans h
    · rename_i h
      cases hclose.symm.trans h
      simp
    · rename_i h
      cases hclose.symm.trans h
  | cons member members ih =>
    obtain ⟨hname, hnames⟩ := List.forall_mem_cons.mp hnames
    obtain ⟨hmember, hplain⟩ := List.forall_mem_cons.mp hplain
    rw [Json.moreMembers_cons, readMembers_part Json.readMemberStart_comma hname hmember hroom,
      ih hnames hplain, List.reverse_cons, List.append_assoc]
    rfl

end Text

section Entries

variable {type : NamedType} {declaration : TypeDef} {path : List Json.PathStep} {rest : List Char}

theorem ofName?_describedKind (h : type.redeclared? = some declaration) :
    DefKind.ofName? type.describedKind = some (kindOf declaration) := by
  cases type with
  | builtin => simp [NamedType.redeclared?] at h
  | object object =>
    cases h
    rfl
  | enum enum =>
    cases h
    rfl
  | union union =>
    obtain ⟨keys, -, rfl⟩ := Option.map_eq_some_iff.mp h
    rfl

/-- Behind the kind, a description has texts, and lists and objects of texts. -/
theorem plain_describedParts : ∀ member ∈ type.describedParts ++ type.describedText,
    member.1 ≠ "kind" ∧ member.2.IsPlain 1 := by
  have hstrings : ∀ texts : List String, (Json.array (texts.map .string)).IsPlain 1 :=
    fun texts => .array (List.forall_mem_map.mpr fun _ _ => .string)
  have hparts : ∀ member ∈ type.describedParts, member.1 ≠ "kind" ∧ member.2.IsPlain 1 := by
    cases type with
    | builtin => simp [NamedType.describedParts, Schema.partsOf]
    | object object =>
      refine List.forall_mem_singleton.mpr ⟨by simp, .object ?_⟩
      exact List.forall_mem_map.mpr fun _ _ => .string
    | enum enum => exact List.forall_mem_singleton.mpr ⟨by simp, hstrings enum.values⟩
    | union union =>
      refine List.forall_mem_cons.mpr ⟨⟨by simp, ?_⟩, List.forall_mem_singleton.mpr ⟨by simp, ?_⟩⟩
      · cases union.typeKey
        · exact .null
        · exact .string
      · cases union.lookup.keys? with
        | none => exact .null
        | some keys => exact hstrings keys
  refine List.forall_mem_append.mpr ⟨hparts, ?_⟩
  unfold NamedType.describedText
  cases type.description with
  | none => simp
  | some text => exact List.forall_mem_singleton.mpr ⟨by simp, .string⟩

theorem entry_start :
    ∃ c cs, type.entry.compact.toList = c :: cs ∧ Json.isBlank c = false ∧ c ≠ ']' :=
  ⟨'\x7b', _, Json.toList_compact_object, rfl, by decide⟩

/-- **The description of a type is read as its declaration.** -/
theorem readTypeDef_entry (h : type.redeclared? = some declaration) :
    readTypeDef path (type.entry.compact.toList ++ rest) = .ok (.ok declaration, rest) := by
  have hblank : Json.isBlank '\x7b' = false := rfl
  have hname : ("name" : String) ≠ "kind" := by simp
  have hall : ∀ member ∈ type.describedParts ++ type.describedText,
      member.1 ≠ "kind" ∧ member.2.IsPlain 1 := plain_describedParts
  obtain ⟨hnames, hplain⟩ := forall₂_and.mp hall
  have hroom : partDepth + 1 < Json.depthLimit := by decide
  rw [NamedType.entry, Json.toList_compact_object, List.cons_append, List.cons_append,
    List.append_assoc, List.append_assoc, Json.moreMembers_cons, readTypeDef,
    Json.skipBlanks_cons hblank]
  simp only [↓reduceIte]
  rw [readMembers_part Json.readMemberStart_quote hname .string hroom,
    readMembers_kind Json.readMemberStart_comma (ofName?_describedKind h), List.singleton_append,
    readMembers_more hnames hplain hroom]
  exact congrArg (fun reading => Except.ok (reading, rest)) (ofMembers_entry h)

end Entries

/-! ## Reading documents -/

section Documents

variable {types : List NamedType} {declarations : List TypeDef} {path : List Json.PathStep}
  {rest : List Char}

/-- The declarations repeat the descriptions of the types. -/
def Redeclares (types : List NamedType) (declarations : List TypeDef) : Prop :=
  List.Forall₂ (fun type declaration => type.redeclared? = some declaration) types declarations

/-- All types but scalars have declarations. -/
theorem redeclares_filterMap (h : ∀ type ∈ types, (∀ scalar, type ≠ .builtin scalar) →
      ∃ repeated, type.redeclared? = some repeated) :
    Redeclares (types.filter fun type => !type.entry.isScalarEntry)
      (types.filterMap NamedType.redeclared?) := by
  induction types with
  | nil => exact .nil
  | cons type types ih =>
    obtain ⟨htype, htypes⟩ := List.forall_mem_cons.mp h
    by_cases hscalar : type.entry.isScalarEntry
    · obtain ⟨scalar, rfl⟩ := isScalarEntry_entry.mp hscalar
      rw [List.filter_cons_of_neg (by simp [hscalar]), List.filterMap_cons_none rfl]
      exact ih htypes
    · obtain ⟨repeated, hrepeated⟩ := htype fun scalar heq =>
        hscalar (isScalarEntry_entry.mpr ⟨scalar, heq⟩)
      rw [List.filter_cons_of_pos (by simp [hscalar]), List.filterMap_cons_some hrepeated]
      exact .cons hrepeated (ih htypes)

theorem readDeclarations_close {first : Bool} {index : Nat} :
    readDeclarations path first index (']' :: rest) = .ok ([], rest) := by
  have hclose : Json.readItemStart first (']' :: rest) = .ok (.close rest) :=
    Json.readItemStart_close Json.blank_nil
  rw [readDeclarations.eq_def]
  split
  · rename_i h
    cases hclose.symm.trans h
  · rename_i h
    cases hclose.symm.trans h
    rfl
  · rename_i h
    cases hclose.symm.trans h

/-- A declaration is read and put in front of the others. -/
theorem readDeclarations_entry {first : Bool} {index : Nat} {cs : List Char} {type : NamedType}
    {declaration : TypeDef}
    (hstart : Json.readItemStart first cs = .ok (.item (type.entry.compact.toList ++ rest)))
    (h : type.redeclared? = some declaration) :
    readDeclarations path first index cs =
      (readDeclarations path false (index + 1) rest).map fun (others, rest) =>
        (declaration :: others, rest) := by
  have hread : ∀ path, readTypeDef path (type.entry.compact.toList ++ rest) =
      .ok (.ok declaration, rest) := fun _ => readTypeDef_entry h
  generalize type.entry.compact.toList ++ rest = text at hstart hread
  rw [readDeclarations.eq_def]
  simp only []
  split
  · rename_i h
    cases hstart.symm.trans h
  · rename_i h
    cases hstart.symm.trans h
  · rename_i h
    cases hstart.symm.trans h
    split
    · rename_i h
      cases (hread _).symm.trans h
    · rename_i h
      cases (hread _).symm.trans h
    · rename_i h
      cases (hread _).symm.trans h
      cases readDeclarations path false (index + 1) rest <;> rfl

theorem readDeclarations_more (h : Redeclares types declarations) (index : Nat) :
    readDeclarations path false index (Json.moreItems (types.map NamedType.entry) ++ ']' :: rest) =
      .ok (declarations, rest) := by
  induction h generalizing index with
  | nil => exact readDeclarations_close
  | cons htype _ ih =>
    rw [List.map_cons, Json.moreItems_cons,
      readDeclarations_entry (Json.readItemStart_more entry_start) htype, ih]
    rfl

theorem readTypes_entries (h : Redeclares types declarations) :
    readTypes path ((Json.array (types.map NamedType.entry)).compact.toList ++ rest) =
      .ok (declarations, rest) := by
  have hblank : Json.isBlank '[' = false := rfl
  cases h with
  | nil =>
    change readTypes path ('[' :: ']' :: rest) = _
    rw [readTypes, Json.skipBlanks_cons hblank]
    exact readDeclarations_close
  | cons htype hrest =>
    rw [List.map_cons, Json.toList_compact_array, List.cons_append, List.append_assoc,
      List.append_assoc, readTypes, Json.skipBlanks_cons hblank]
    simp only [↓reduceIte]
    rw [readDeclarations_entry (Json.readItemStart_item entry_start) htype]
    exact congrArg (Except.map _) (readDeclarations_more hrest 1)

/-- The list of declarations is read. -/
theorem readDocumentMembers_types {first : Bool} {cs text : List Char}
    (hstart : Json.readMemberStart first cs = .ok (.name "types" (':' :: text)))
    (hread : readTypes [.member "types"] text = .ok (declarations, rest)) :
    readDocumentMembers first none cs = readDocumentMembers false (some declarations) rest := by
  rw [readDocumentMembers.eq_def]
  split
  · rename_i h
    cases hstart.symm.trans h
  · rename_i h
    cases hstart.symm.trans h
  · rename_i h
    cases hstart.symm.trans h
    simp only [Option.isSome_none, Bool.false_eq_true, and_false, ↓reduceIte]
    split
    · rename_i h
      cases readColon_cons.symm.trans h
    · rename_i h
      obtain rfl := Except.ok.inj (readColon_cons.symm.trans h)
      split
      · rename_i h
        cases hread.symm.trans h
      · rename_i h
        cases hread.symm.trans h
        rfl

theorem readDocumentMembers_close :
    readDocumentMembers false (some declarations) ('\x7d' :: rest) = .ok ⟨declarations⟩ := by
  have hclose : Json.readMemberStart false ('\x7d' :: rest) = .ok (.close rest) :=
    Json.readMemberStart_close Json.blank_nil
  rw [readDocumentMembers.eq_def]
  split
  · rename_i h
    cases hclose.symm.trans h
  · rename_i h
    cases hclose.symm.trans h
    rfl
  · rename_i h
    cases hclose.symm.trans h

/-- **Descriptions of types are a document.** Read as one, they declare the types again, in the same
order. -/
theorem read_entries (h : Redeclares types declarations) :
    read (Json.object [("types", .array (types.map NamedType.entry))]).compact =
      .ok ⟨declarations⟩ := by
  have hblank : Json.isBlank '\x7b' = false := rfl
  rw [read, Json.toList_compact_object, Json.skipBlanks_cons hblank]
  simp only [↓reduceIte, Json.moreMembers, List.flatMap_nil, List.nil_append]
  rw [readDocumentMembers_types (Json.readMemberStart_quote.trans Json.readName_member)
    (readTypes_entries h), readDocumentMembers_close]

end Documents

end Document

end TaggedUnion
