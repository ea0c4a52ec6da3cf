import TaggedUnion.Proofs.Coercion.ReadBack
import TaggedUnion.Proofs.Command.Run
import TaggedUnion.Proofs.Json.Compact

/-!
# Reports on value files

The report on files is put together from what is said of each document by itself.

* `Selects`, `Judged`: the part of a document that is checked, and what is said of the document.
* `dataLines`: the lines of a file that are documents of their own.
* `IsOk`, `Entry.Tells`: what an entry says.
* `Completion.Judges`, `Reports`: a run of the command that puts out a report with given items.
* `mapM_check_valueInputs`: the entries of files, from the outcome for each text.
* `exists_reports`: the command for values, with its exit status.
-/

namespace TaggedUnion.Command

/-- A text is JSON, and what is checked of it is the whole or what the pointer selects. -/
inductive Selects (text : String) : Option String → Json → Prop where
  | whole {document : Json} (hread : Json.parse text = .ok document) : Selects text none document
  | part {path : String} {document part : Json} (hread : Json.parse text = .ok document)
    (hselect : Json.Pointer.select? path document = some part) : Selects text (some path) part

/-- What is said of a document: it is accepted as it is, refused by the union, not JSON, or without
the part that the pointer is for. -/
inductive Judged (registry : Registry) (union : UnionType) (pointer : Option String)
    (text : String) : Except Rejection Json → Prop where
  | accepted {value : Json} (hselects : Selects text pointer value)
    (hcheck : union.parseValue registry value = .ok value) :
    Judged registry union pointer text (.ok value)
  | refused {value : Json} {error : UnionError} (hselects : Selects text pointer value)
    (hcheck : union.parseValue registry value = .error error) :
    Judged registry union pointer text (.error ⟨error.kind, error.message⟩)
  | notJson {fault : Json.Fault} (hread : Json.parse text = .error fault) :
    Judged registry union pointer text (.error ⟨"InvalidDocument", fault.located text⟩)
  | unselected {path : String} {document : Json} (hpointer : pointer = some path)
    (hread : Json.parse text = .ok document)
    (hselect : Json.Pointer.select? path document = none) :
    Judged registry union pointer text
      (.error ⟨"InvalidDocument", "JSON pointer " ++ path ++ " selects nothing"⟩)

/-- The lines that are not blank. -/
def dataLines (text : String) : List String :=
  ((Text.lines text.toList).filter fun line => line.any fun c => !Text.isBlank c).map String.ofList

/-- Whether an item of a report says that its input is accepted. -/
def IsOk (item : Json) : Prop := item.member? "ok" = some (.bool true)

/-- What the report says of an entry: where its input is from, and the value that is accepted and no
error, or the error of what is refused and no value. -/
structure Entry.Tells (entry : Entry) (outcome : Except Rejection Json) : Prop where
  source : entry.json.member? "source" = some (.string entry.source)
  index : entry.json.member? "index" = some (.number (.integer entry.index))
  accepted : ∀ value, outcome = .ok value →
    IsOk entry.json ∧ entry.json.member? "value" = some value ∧ entry.json.member? "error" = none
  refused : ∀ rejection, outcome = .error rejection →
    entry.json.member? "ok" = some (.bool false) ∧ entry.json.member? "value" = none ∧
      entry.json.member? "error" = some
        (.object [("kind", .string rejection.kind), ("message", .string rejection.message)])

/-- The exit status says whether all items of the report are accepted. -/
def Completion.Judges (completion : Completion) (items : List Json) : Prop :=
  completion.exitCode = 0 ∧ (∀ item ∈ items, IsOk item) ∨
    completion.exitCode = 1 ∧ ∃ item ∈ items, ¬IsOk item

/-- A run of the command on the paths puts out the report that is the array of these items: as text,
or to a file wherever one can be written, with the directory that it is in. -/
structure Reports (tree : FileTree) (target : Target) (layout : ValueLayout) (paths : List String)
    (items : List Json) : Prop where
  text : ∃ completion : Completion,
    (Invocation.run FileTree.disk ⟨.checkValues target layout paths, none⟩).run.run tree =
        (.ok completion, tree) ∧
      completion.output = (Json.array items).pretty ++ "\n" ∧ completion.Judges items
  file : ∀ path made after, madeFor tree path = .ok made →
    made.write path (Json.array items).pretty = .ok after →
    ∃ completion : Completion,
      (Invocation.run FileTree.disk ⟨.checkValues target layout paths, some path⟩).run.run tree =
          (.ok completion, after) ∧
        completion.output = "" ∧ completion.Judges items

/-! ## One document -/

section Document

variable {registry : Registry} {union : UnionType} {pointer : Option String}

theorem judged_of_selects {text : String} {value : Json} (h : Selects text pointer value) :
    Judged registry union pointer text ((union.parseValue registry value).mapError .ofUnion) := by
  cases hcheck : union.parseValue registry value with
  | error error => exact .refused h hcheck
  | ok result =>
    obtain ⟨-, rfl⟩ := parseValue_eq_ok_iff.mp hcheck
    exact .accepted h hcheck

/-- Nothing is selected of what is not JSON, nor by a pointer to no part. -/
theorem Judged.invalidDocument {text : String} {outcome : Except Rejection Json}
    (h : Judged registry union pointer text outcome)
    (hnone : ∀ value, ¬Selects text pointer value) :
    ∃ message, outcome = .error ⟨"InvalidDocument", message⟩ := by
  cases h with
  | accepted hselects => exact absurd hselects (hnone _)
  | refused hselects => exact absurd hselects (hnone _)
  | notJson => exact ⟨_, rfl⟩
  | unselected => exact ⟨_, rfl⟩

theorem Selects.unique {text : String} {first second : Json} (hfirst : Selects text pointer first)
    (hsecond : Selects text pointer second) : first = second := by
  cases hfirst with
  | whole hread =>
    cases hsecond with
    | whole hagain => exact Except.ok.inj (hread.symm.trans hagain)
  | part hread hselect =>
    cases hsecond with
    | part hagain hfound =>
      obtain rfl := Except.ok.inj (hread.symm.trans hagain)
      exact Option.some.inj (hselect.symm.trans hfound)

/-- What is said of a document of which something is selected is what the union makes of that. -/
theorem Judged.eq_mapError_parseValue {text : String} {outcome : Except Rejection Json}
    {value : Json} (h : Judged registry union pointer text outcome)
    (hvalue : Selects text pointer value) :
    outcome = (union.parseValue registry value).mapError .ofUnion := by
  cases h with
  | accepted hselects hcheck => rw [hvalue.unique hselects, hcheck]; rfl
  | refused hselects hcheck => rw [hvalue.unique hselects, hcheck]; rfl
  | notJson hread => cases hvalue <;> simp_all
  | unselected hpointer hread hselect => cases hvalue <;> simp_all

/-- Wherever a document stands, its entry says the same of it. -/
theorem exists_judged (registry : Registry) (union : UnionType) (pointer : Option String)
    (text : String) : ∃ outcome, Judged registry union pointer text outcome ∧
      ∀ source index, check registry union ⟨source, index, valueBody pointer text⟩ =
        .ok ⟨source, index, outcome⟩ := by
  unfold valueBody
  cases hread : Json.parse text with
  | error fault => exact ⟨_, .notJson hread, fun source index => rfl⟩
  | ok document =>
    cases pointer with
    | none => exact ⟨_, judged_of_selects (.whole hread), fun source index => rfl⟩
    | some path =>
      cases hselect : Json.Pointer.select? path document with
      | none =>
        refine ⟨_, .unselected rfl hread hselect, fun source index => ?_⟩
        simp only [selected, hselect]
        rfl
      | some part =>
        refine ⟨_, judged_of_selects (.part hread hselect), fun source index => ?_⟩
        simp only [selected, hselect]
        rfl

end Document

/-! ## Entries -/

section Entries

variable {entries : List Entry}

theorem Entry.tells (entry : Entry) : entry.Tells entry.outcome := by
  obtain ⟨source, index, outcome⟩ := entry
  cases outcome with
  | ok value =>
    refine ⟨rfl, rfl, ?_, nofun⟩
    rintro _ ⟨⟩
    exact ⟨rfl, rfl, rfl⟩
  | error rejection =>
    refine ⟨rfl, rfl, nofun, ?_⟩
    rintro _ ⟨⟩
    exact ⟨rfl, rfl, rfl⟩

theorem isOk_json_iff {entry : Entry} : IsOk entry.json ↔ entry.isAccepted = true := by
  obtain ⟨source, index, outcome⟩ := entry
  cases outcome with
  | ok value => exact ⟨fun _ => rfl, fun _ => rfl⟩
  | error rejection => exact ⟨nofun, nofun⟩

theorem judges_of_all {completion : Completion}
    (h : completion.isAccepted = entries.all Entry.isAccepted) :
    completion.Judges (entries.map Entry.json) := by
  cases hall : entries.all Entry.isAccepted with
  | true =>
    refine .inl ⟨if_pos (h.trans hall), List.forall_mem_map.mpr fun entry hentry => ?_⟩
    exact isOk_json_iff.mpr (List.all_eq_true.mp hall entry hentry)
  | false =>
    obtain ⟨entry, hentry, hrefused⟩ := List.all_eq_false.mp hall
    refine .inr ⟨if_neg (by simp [h, hall]), entry.json, List.mem_map_of_mem hentry, ?_⟩
    exact mt isOk_json_iff.mp hrefused

/-- The entries of outcomes from one source, numbered from zero. -/
def entriesOf (source : String) (outcomes : List (Except Rejection Json)) : List Entry :=
  outcomes.zipIdx.map fun (outcome, index) => ⟨source, index, outcome⟩

theorem map_outcome_entriesOf {source : String} {outcomes : List (Except Rejection Json)} :
    (entriesOf source outcomes).map Entry.outcome = outcomes := by
  rw [entriesOf, List.map_map]
  exact List.zipIdx_map_fst 0 outcomes

theorem map_place_entriesOf {source : String} {outcomes : List (Except Rejection Json)} :
    (entriesOf source outcomes).map (fun entry => (entry.source, entry.index)) =
      (List.range (entriesOf source outcomes).length).map fun index => (source, index) := by
  rw [entriesOf, List.length_map, List.length_zipIdx, List.range_eq_range',
    ← List.zipIdx_map_snd 0 outcomes, List.map_map, List.map_map]
  rfl

end Entries

/-! ## Files -/

section Files

variable {registry : Registry} {union : UnionType} {pointer : Option String} {byLine : Bool}
  {outcome : String → Except Rejection Json} {files : List (String × String)}

theorem valueTexts_byLine {text : String} : valueTexts ⟨true, pointer⟩ text = dataLines text := by
  simp only [valueTexts, dataLines, List.not_all_eq_any_not]
  rfl

/-- The entries of files, one file after the other. -/
theorem mapM_check_valueInputs
    (hcheck : ∀ text source index, check registry union ⟨source, index, valueBody pointer text⟩ =
      .ok ⟨source, index, outcome text⟩) :
    (valueInputs ⟨byLine, pointer⟩ files).mapM (check registry union) = .ok (files.flatMap
      fun file => entriesOf file.1 ((valueTexts ⟨byLine, pointer⟩ file.2).map outcome)) := by
  -- As one list of texts with their places, so that the check of each one is known.
  have hlisted : valueInputs ⟨byLine, pointer⟩ files =
      (files.flatMap fun file => (valueTexts ⟨byLine, pointer⟩ file.2).zipIdx.map
        fun (text, index) => (file.1, index, text)).map
          fun (source, index, text) => ⟨source, index, valueBody pointer text⟩ := by
    simp only [valueInputs, numbered, List.mapIdx_eq_zipIdx_map, List.zipIdx_map, List.map_flatMap,
      List.map_map]
    rfl
  have hpure : (check registry union ∘ fun (source, index, text) =>
      ⟨source, index, valueBody pointer text⟩) = fun (source, index, text) =>
        (pure ⟨source, index, outcome text⟩ : Except Failure Entry) :=
    funext fun (source, index, text) => hcheck text source index
  rw [hlisted, List.mapM_map, hpure, List.mapM_pure]
  simp only [entriesOf, List.zipIdx_map, List.map_flatMap, List.map_map]
  rfl

/-- The report is put together from the entries of the inputs that the files hold. -/
theorem reports_of_mapM_check {tree : FileTree} {target : Target} {schema : Schema}
    {layout : ValueLayout} {entries : List Entry} (hloads : Loads tree target schema union)
    (hholds : Holds tree files)
    (hcheck : (valueInputs layout files).mapM (check schema.registry union) = .ok entries) :
    Reports tree target layout (files.map Prod.fst) (entries.map Entry.json) := by
  constructor
  case text =>
    have hrun := (run_checkValues hloads hholds).trans (run_checkAll hcheck run_putOut_text)
    exact ⟨_, hrun, rfl, judges_of_all rfl⟩
  case file =>
    intro path made after hmade hwrite
    have hrun := (run_checkValues hloads hholds).trans
      (run_checkAll hcheck (run_putOut_file hmade hwrite))
    exact ⟨_, hrun, rfl, judges_of_all rfl⟩

end Files

/-- The report on files is the array of the entries of the first file, then those of the second, and
so on, where the report on each file alone is the array of its entries. The entries of a file are
numbered from zero, one for the document that it is, or with lines one for each line that is not
blank, which says the same as if the line was a file. Each entry tells what is said of its document,
whatever the others are, and the exit status whether all are accepted. -/
theorem exists_reports (schema : Schema) (union : UnionType) (pointer : Option String) :
    ∃ (outcome : String → Except Rejection Json) (entries : Bool → String × String → List Entry),
      (∀ text, Judged schema.registry union pointer text (outcome text)) ∧
      (∀ text, (∀ value, ¬Selects text pointer value) →
        ∃ message, outcome text = .error ⟨"InvalidDocument", message⟩) ∧
      (∀ tree target byLine files, Loads tree target schema union → Holds tree files →
        (∀ file ∈ files, Reports tree target ⟨byLine, pointer⟩ [file.1]
          ((entries byLine file).map Entry.json)) ∧
        Reports tree target ⟨byLine, pointer⟩ (files.map Prod.fst)
          (files.flatMap fun file => (entries byLine file).map Entry.json)) ∧
      (∀ byLine file, (entries byLine file).map (fun entry => (entry.source, entry.index)) =
        (List.range (entries byLine file).length).map fun index => (file.1, index)) ∧
      (∀ path text, entries false (path, text) = [⟨path, 0, outcome text⟩]) ∧
      (∀ (file : String × String) (lineFiles : List (String × String)),
        lineFiles.map Prod.snd = dataLines file.2 →
        (entries true file).map Entry.outcome =
          (lineFiles.flatMap (entries false)).map Entry.outcome) ∧
      ∀ entry : Entry, entry.Tells entry.outcome := by
  choose outcome hjudged hcheck using exists_judged schema.registry union pointer
  let entries (byLine : Bool) (file : String × String) : List Entry :=
    entriesOf file.1 ((valueTexts ⟨byLine, pointer⟩ file.2).map outcome)
  refine ⟨outcome, entries, hjudged, fun text => (hjudged text).invalidDocument, ?reports,
    fun byLine file => map_place_entriesOf, fun path text => rfl, ?lines, Entry.tells⟩
  case reports =>
    intro tree target byLine files hloads hholds
    have hreports : ∀ files, Holds tree files →
        Reports tree target ⟨byLine, pointer⟩ (files.map Prod.fst)
          (files.flatMap fun file => (entries byLine file).map Entry.json) := by
      intro files hholds
      rw [← List.map_flatMap]
      exact reports_of_mapM_check hloads hholds (mapM_check_valueInputs hcheck)
    refine ⟨fun file hfile => ?_, hreports files hholds⟩
    have halone : Holds tree [file] := List.forall_mem_singleton.mpr (hholds file hfile)
    simpa only [List.map_singleton, List.flatMap_singleton] using hreports [file] halone
  case lines =>
    intro file lineFiles hlines
    rw [map_outcome_entriesOf, valueTexts_byLine, ← hlines, List.map_map, List.map_flatMap,
      List.map_eq_flatMap]
    rfl

/-- The text of the document that declares a union of wrapped strings. -/
def wrappedText : String :=
  "\x7b\"types\":[\x7b\"kind\":\"union\",\"name\":\"u\",\"inputTypes\":[\"String\"]\x7d]\x7d"

/-- The document with two files: a wrapped string, and what is not JSON. -/
def wrappedTree : FileTree :=
  ⟨[(["schema.json"], some wrappedText),
    (["whole.json"], some "\x7b\"_type_\":\"String\",\"_value_\":\"x\"\x7d"),
    (["cut.json"], some "\x7b")], []⟩

theorem loads_wrappedTree : Loads wrappedTree ⟨"schema.json", "u"⟩ wrappedSchema
    (wrappedStrings.unionOf [.builtin .string]) := by
  have hread : Document.read wrappedText = .ok ⟨[.union wrappedStrings]⟩ := by
    with_unfolding_all rfl
  refine ⟨⟨wrappedText, by with_unfolding_all rfl, ?_⟩, rfl⟩
  rw [schemaOf, hread]
  exact mapError_eq_ok.mpr build_wrappedStrings

theorem compact_wrappedValue :
    wrappedValue.compact = "\x7b\"_type_\":\"String\",\"_value_\":\"x\"\x7d" := by
  decide +kernel

theorem isPlain_wrappedValue : wrappedValue.IsPlain 1 := by
  refine .object fun member hmember => ?_
  simp only [List.mem_cons, List.not_mem_nil, or_false] at hmember
  obtain rfl | rfl := hmember <;> exact .string

theorem exists_reports_wrapped :
    Loads wrappedTree ⟨"schema.json", "u"⟩ wrappedSchema
        (wrappedStrings.unionOf [.builtin .string]) ∧
      Holds wrappedTree
        [("whole.json", "\x7b\"_type_\":\"String\",\"_value_\":\"x\"\x7d"), ("cut.json", "\x7b")] ∧
      ∃ completion message,
        (Invocation.run FileTree.disk ⟨.checkValues ⟨"schema.json", "u"⟩ ⟨false, none⟩
            ["whole.json", "cut.json"], none⟩).run.run wrappedTree =
          (.ok completion, wrappedTree) ∧
        completion.output = (Json.array [
          .object [("source", .string "whole.json"), ("index", .number (.integer 0)),
            ("ok", .bool true),
            ("value", .object [("_type_", .string "String"), ("_value_", .string "x")])],
          .object [("source", .string "cut.json"), ("index", .number (.integer 0)),
            ("ok", .bool false),
            ("error", .object [("kind", .string "InvalidDocument"),
              ("message", .string message)])]]).pretty ++ "\n" ∧
        completion.exitCode = 1 := by
  have hholds : Holds wrappedTree
      [("whole.json", "\x7b\"_type_\":\"String\",\"_value_\":\"x\"\x7d"),
        ("cut.json", "\x7b")] := by
    intro file hfile
    simp only [List.mem_cons, List.not_mem_nil, or_false] at hfile
    obtain rfl | rfl := hfile <;> exact ⟨by decide +kernel, by with_unfolding_all rfl⟩
  refine ⟨loads_wrappedTree, hholds, ?_⟩
  obtain ⟨outcome, entries, hjudged, hinvalid, hreports, -, hwhole, -, -⟩ :=
    exists_reports wrappedSchema (wrappedStrings.unionOf [.builtin .string]) none
  have hselects : Selects wrappedValue.compact none wrappedValue :=
    .whole (Json.parse_compact isPlain_wrappedValue (by decide))
  rw [compact_wrappedValue] at hselects
  have haccepted :
      outcome "\x7b\"_type_\":\"String\",\"_value_\":\"x\"\x7d" = .ok wrappedValue := by
    rw [(hjudged _).eq_mapError_parseValue hselects]
    cbv
  have hnone : ∀ value, ¬Selects "\x7b" none value := by
    rintro value ⟨hread⟩
    have hfails : (Json.parse "\x7b").toOption = none := by with_unfolding_all rfl
    exact Option.some_ne_none _ ((toOption_eq_some.mpr hread).symm.trans hfails)
  obtain ⟨message, hcut⟩ := hinvalid "\x7b" hnone
  obtain ⟨completion, hrun, houtput, hcode⟩ :=
    (hreports wrappedTree _ false _ loads_wrappedTree hholds).2.text
  simp only [List.flatMap_cons, List.flatMap_nil, hwhole, haccepted, hcut] at houtput hcode
  refine ⟨completion, message, hrun, houtput, ?_⟩
  obtain ⟨-, hok⟩ | ⟨hcode, -⟩ := hcode
  -- Not all entries can be accepted, since that of the second file is not.
  · have hcutOk : IsOk (Entry.json ⟨"cut.json", 0, .error ⟨"InvalidDocument", message⟩⟩) :=
      hok _ (.tail _ (.head _))
    exact absurd (isOk_json_iff.mp hcutOk) Bool.false_ne_true
  · exact hcode

end TaggedUnion.Command
