import Mathlib
import TaggedUnion.Proofs.Coercion.Conformance
import TaggedUnion.Proofs.Union.Building

/-!
# Values in a wrapper

A union without a type key takes its values in an object with the members `_type_` and `_value_`.
Which of its outcomes a runtime value has is said by the value alone and by the check of what is in
the wrapper.

* `Json.IsWrapper`: the values that have both members.
* `Candidates.listed`: the candidates as they are given, each with its key.
* `entries_of_entriesOf`: the table that is made of them.
* `conforms_wrapperOf_iff`: what the wrapper of a candidate asks of a value.
* `parseValue_wrapping`: the outcome of each value.
-/

namespace TaggedUnion

/-- A value has both members of a wrapper, and both count as present. -/
structure Json.IsWrapper (value tag payload : Json) : Prop where
  member_tag : value.member? typeField = some tag
  truthy_tag : tag.isTruthy
  member_payload : value.member? valueField = some payload
  truthy_payload : payload.isTruthy

/-- The candidates with their keys. A type without a key stands under its text. -/
def Candidates.listed : Candidates → List (String × InputType)
  | byName types => types.map fun type => (type.text, type)
  | keyed pairs => pairs

/-- A listed candidate in the form in which the table is made of it. -/
def listedEntry (pair : String × NamedType) : String × InputType := (pair.1, .named pair.2)

/-! ## The table -/

section Table

variable {union : String} {wrap : Bool}

theorem exists_named_of_candidate {key : String} {type : InputType} {named : NamedType}
    (h : candidate union wrap key type = .ok named) : ∃ payload, type = .named payload := by
  unfold candidate wrapper at h
  split at h
  · obtain ⟨payload, hensure, -⟩ := map_eq_ok.mp h
    exact ⟨payload, ensureCandidate_eq hensure⟩
  · exact ⟨named, ensureCandidate_eq h⟩

/-- A table is made of named types only. -/
theorem exists_named_of_foldlM {pairs : List (String × InputType)}
    {entries out : List (String × NamedType)}
    (h : pairs.foldlM (Lookup.addEntry union wrap) entries = .ok out) :
    ∃ listed : List (String × NamedType), pairs = listed.map listedEntry := by
  induction pairs generalizing entries with
  | nil => exact ⟨[], rfl⟩
  | cons pair rest ih =>
    obtain ⟨entries', hadd, hrest⟩ := foldlM_cons_eq_ok.mp h
    obtain ⟨listed, rfl⟩ := ih hrest
    unfold Lookup.addEntry at hadd
    split at hadd
    · simp at hadd
    · obtain ⟨named, hcandidate, -⟩ := map_eq_ok.mp hadd
      obtain ⟨payload, hpayload⟩ := exists_named_of_candidate hcandidate
      exact ⟨(pair.1, payload) :: listed, by rw [List.map_cons, listedEntry, ← hpayload]⟩

theorem exists_named_of_mapM {types : List InputType} {pairs : List (String × InputType)}
    (h : types.mapM (fun type =>
      (ensureCandidate union type.text type).map fun t => (t.name, type)) = .ok pairs) :
    ∃ named : List NamedType, types = named.map InputType.named := by
  induction types generalizing pairs with
  | nil => exact ⟨[], rfl⟩
  | cons type rest ih =>
    rw [List.mapM_cons] at h
    obtain ⟨pair, hfirst, hrest⟩ := bind_eq_ok.mp h
    obtain ⟨others, hothers, -⟩ := bind_eq_ok.mp hrest
    obtain ⟨payload, hensure, -⟩ := map_eq_ok.mp hfirst
    obtain ⟨named, rfl⟩ := ih hothers
    exact ⟨payload :: named, by rw [List.map_cons, ← ensureCandidate_eq hensure]⟩

/-- **The table of a union.** A table has an entry for each candidate that is listed, in order and
under distinct keys. -/
theorem entries_of_entriesOf {candidates : Candidates} {entries : List (String × NamedType)}
    (h : Lookup.entriesOf union candidates wrap = .ok entries) :
    ∃ listed : List (String × NamedType), candidates.listed = listed.map listedEntry ∧
      (listed.map Prod.fst).Nodup ∧ entries = listed.map (tableEntry wrap) := by
  have htable : ∀ {pairs}, pairs.foldlM (Lookup.addEntry union wrap) [] = .ok entries →
      ∃ listed : List (String × NamedType), pairs = listed.map listedEntry ∧
        (listed.map Prod.fst).Nodup ∧ entries = listed.map (tableEntry wrap) := by
    intro pairs hfold
    obtain ⟨listed, rfl⟩ := exists_named_of_foldlM hfold
    obtain ⟨hkeys, -, hentries⟩ := (foldlM_addEntry_eq_ok_iff (by simp)).mp hfold
    exact ⟨listed, rfl, by simpa using hkeys, by simpa using hentries⟩
  unfold Lookup.entriesOf Candidates.pairs at h
  cases candidates with
  | keyed pairs => exact htable h
  | byName types =>
    simp only [] at h
    split at h
    · simp at h
    · rename_i pairs hread
      obtain ⟨named, rfl⟩ := exists_named_of_mapM hread
      obtain ⟨-, rfl⟩ := mapM_ensureCandidate_eq_ok_iff.mp hread
      obtain ⟨listed, hlisted, hrest⟩ := htable h
      refine ⟨listed, ?_, hrest⟩
      rw [← hlisted, Candidates.listed, List.map_map]
      rfl

theorem lookup_map_tableEntry {listed : List (String × NamedType)} {key : String} :
    (listed.map (tableEntry wrap)).lookup key =
      (listed.lookup key).map fun payload => (tableEntry wrap (key, payload)).2 := by
  induction listed with
  | nil => rfl
  | cons pair rest ih =>
    have hhead : (tableEntry wrap pair).1 = pair.1 := rfl
    rw [List.map_cons, List.lookup_cons, List.lookup_cons, hhead, ih]
    cases hkey : key == pair.1 with
    | false => rfl
    | true =>
      rw [beq_iff_eq] at hkey
      rw [hkey]
      rfl

/-- With distinct keys, an entry is what is found under its key. -/
theorem lookup_of_mem {α : Type} {entries : List (String × α)} {key : String} {value : α}
    (hkeys : (entries.map Prod.fst).Nodup) (hmem : (key, value) ∈ entries) :
    entries.lookup key = some value := by
  obtain ⟨before, after, rfl⟩ := List.append_of_mem hmem
  refine List.lookup_eq_some_iff.mpr ⟨before, after, rfl, fun entry hentry => ?_⟩
  rw [List.map_append, List.map_cons] at hkeys
  have hne : entry.1 ≠ key :=
    (List.nodup_append.mp hkeys).2.2 _ (List.mem_map_of_mem hentry) _ List.mem_cons_self
  simpa using hne.symm

end Table

/-! ## The wrapper -/

section Wrapper

variable {registry : Registry} {value tag payload : Json}

theorem Json.ne_null_of_isTruthy (h : value.isTruthy) : value ≠ .null := by
  rintro rfl
  simp [isTruthy] at h

theorem Json.member?_eq_some_iff {name : String} {member : Json} :
    value.member? name = some member ↔
      ∃ members, value = .object members ∧ members.lookup name = some member := by
  cases value <;> simp [Json.member?]

theorem fieldConforms_of_given {members : List (String × Json)} {name : String} {type : InputType}
    {description : Option String} {default? : Option Json}
    (h : members.lookup name = some value) :
    FieldConforms registry members ⟨name, type, description, default?⟩ ↔
      type.Conforms registry value := by
  unfold FieldConforms
  rw [h]
  simp

/-- **What a wrapper asks for**: a string for a tag, a payload that conforms to the candidate, and
no third member. -/
theorem conforms_wrapperOf_iff {key : String} {type : NamedType}
    (h : value.IsWrapper tag payload) :
    (InputType.named (.object (wrapperOf key type))).Conforms registry value ↔
      (∃ text, tag = .string text) ∧
      (∀ name, (value.member? name).isSome → name = typeField ∨ name = valueField) ∧
      (InputType.named type).Conforms registry payload := by
  obtain ⟨members, rfl, htag⟩ := Json.member?_eq_some_iff.mp h.member_tag
  obtain ⟨_, ⟨⟩, hpayload⟩ := Json.member?_eq_some_iff.mp h.member_payload
  have hstring : (InputType.named (.builtin .string)).Conforms registry tag ↔
      ∃ text, tag = .string text :=
    conforms_builtin_iff (Json.ne_null_of_isTruthy h.truthy_tag)
  have hdeclared : (∀ member ∈ members,
      ∃ field ∈ (wrapperOf key type).fields, field.name = member.1) ↔
      ∀ name, ((Json.object members).member? name).isSome →
        name = typeField ∨ name = valueField := by
    simp only [Json.member?, List.lookup_isSome_iff, beq_iff_eq]
    constructor
    · rintro h _ ⟨member, hmem, rfl⟩
      obtain ⟨field, hfield, hname⟩ := h member hmem
      simp only [wrapperOf, List.mem_cons, List.not_mem_nil, or_false] at hfield
      rw [← hname]
      exact hfield.imp (congrArg Field.name) (congrArg Field.name)
    · intro h member hmem
      rcases h member.1 ⟨member, hmem, rfl⟩ with hname | hname
      · exact ⟨_, List.mem_cons_self, hname.symm⟩
      · exact ⟨_, List.mem_cons_of_mem _ List.mem_cons_self, hname.symm⟩
  have hfields : (∀ field ∈ (wrapperOf key type).fields, FieldConforms registry members field) ↔
      (∃ text, tag = .string text) ∧ (InputType.named type).Conforms registry payload := by
    simp only [wrapperOf, List.forall_mem_cons, List.not_mem_nil, false_implies, implies_true,
      and_true, fieldConforms_of_given htag, fieldConforms_of_given hpayload, hstring]
  rw [conforms_object_iff, hdeclared, hfields]
  exact and_left_comm

end Wrapper

/-! ## Outcomes -/

section Outcomes

variable {registry : Registry} {union : UnionType} {value : Json}

theorem gate_eq_error {name typeText : String} {outcome : Checked Json} {error : UnionError}
    (h : gate name typeText value outcome = .error error) :
    ∃ report, error = .coercionFailed name typeText report := by
  cases outcome with
  | ok out => simp [gate] at h
  | error errors => exact ⟨_, (Except.error.inj h).symm⟩

/-- A union that wraps the listed candidates, and chooses among them by their keys. -/
structure UnionType.Wraps (union : UnionType) (listed : List (String × NamedType)) : Prop where
  typeKey : union.typeKey = none
  keyOfValue : union.keyOfValue = none
  keys : (listed.map Prod.fst).Nodup
  lookup : union.lookup = .table (listed.map (tableEntry true))

/-- Listed candidates are wrapped if there is no type key and no table takes their place. -/
theorem wraps_of_build {config : UnionConfig} {candidates : Candidates}
    (hbuild : config.build = .ok union) (hkey : config.typeKey = none)
    (hcandidates : config.inputTypes = some candidates) (htypes : config.resolveType = none)
    (hvalues : config.resolveTypeFromValue = none) :
    ∃ listed, candidates.listed = listed.map listedEntry ∧ union.Wraps listed := by
  unfold UnionConfig.build UnionConfig.lookup at hbuild
  split at hbuild
  · simp at hbuild
  · simp only [htypes, hcandidates, hkey, hvalues, Option.isNone_none, map_eq_ok,
      Lookup.ofCandidates] at hbuild
    obtain ⟨_, ⟨entries, hentries, rfl⟩, rfl⟩ := hbuild
    obtain ⟨listed, hlisted, hkeys, rfl⟩ := entries_of_entriesOf hentries
    exact ⟨listed, hlisted, rfl, rfl, hkeys, rfl⟩

namespace UnionType.Wraps

variable {listed : List (String × NamedType)} {tag payload : Json}

theorem parseValue_malformed (h : union.Wraps listed)
    (hvalue : ¬∃ tag payload : Json, value.IsWrapper tag payload) :
    union.parseValue registry value = .error (.malformedUnionValue union.name) := by
  refine parseValue_of_typeOfValue_error ?_
  have hkey : union.valueKey value = .error (.malformedUnionValue union.name) := by
    simp only [valueKey, h.typeKey, h.keyOfValue]
    split
    · rename_i hreadTag hreadPayload
      obtain ⟨tag, htag, htruthy, -⟩ := Json.memberKey?_eq_some_iff.mp hreadTag
      obtain ⟨payload, hpayload, hpresent, -⟩ := Json.memberKey?_eq_some_iff.mp hreadPayload
      exact absurd ⟨tag, payload, htag, htruthy, hpayload, hpresent⟩ hvalue
    · rfl
  simp [typeOfValue, hkey]

theorem typeOfValue_eq (h : union.Wraps listed) (hvalue : value.IsWrapper tag payload) :
    union.typeOfValue value = union.lookup.resolve union.name tag.keyText := by
  have hkey : union.valueKey value = .ok tag.keyText :=
    valueKey_eq_ok_iff.mpr (.wrapper h.keyOfValue h.typeKey hvalue.member_tag hvalue.truthy_tag
      hvalue.member_payload hvalue.truthy_payload)
  simp [typeOfValue, hkey]

theorem resolve_unknown (h : union.Wraps listed) {key : String}
    (hkey : key ∉ listed.map Prod.fst) : union.lookup.resolve union.name key =
      .error (.unknownDiscriminatorValue union.name key (listed.map Prod.fst)) := by
  have hlookup : (listed.map (tableEntry true)).lookup key = none := by
    rw [lookup_map_tableEntry, Option.map_eq_none_iff, List.lookup_eq_none_iff]
    intro pair hmem
    simpa using fun heq : key = pair.1 => hkey (heq ▸ List.mem_map_of_mem hmem)
  rw [h.lookup, Lookup.resolve, hlookup, List.map_map]
  rfl

theorem resolve_known (h : union.Wraps listed) {key : String} {type : NamedType}
    (hmem : (key, type) ∈ listed) :
    union.lookup.resolve union.name key = .ok (.object (wrapperOf key type)) := by
  have hlookup : (listed.map (tableEntry true)).lookup key =
      some (.object (wrapperOf key type)) := by
    rw [lookup_map_tableEntry, lookup_of_mem h.keys hmem]
    rfl
  rw [h.lookup, Lookup.resolve, hlookup]

theorem parseValue_unknown (h : union.Wraps listed) (hvalue : value.IsWrapper tag payload)
    (hkey : tag.keyText ∉ listed.map Prod.fst) : union.parseValue registry value =
      .error (.unknownDiscriminatorValue union.name tag.keyText (listed.map Prod.fst)) := by
  refine parseValue_of_typeOfValue_error ?_
  rw [h.typeOfValue_eq hvalue, h.resolve_unknown hkey]

theorem parseValue_known (h : union.Wraps listed) (hvalue : value.IsWrapper tag payload)
    {type : NamedType} (hmem : (tag.keyText, type) ∈ listed) : union.parseValue registry value =
      gate union.name tag.keyText value
        ((InputType.named (.object (wrapperOf tag.keyText type))).coerce registry value) := by
  refine parseValue_of_typeOfValue ?_
  rw [h.typeOfValue_eq hvalue, h.resolve_known hmem]

/-- A key that is listed has a candidate, so a value is refused by its wrapper. -/
theorem exists_report (h : union.Wraps listed) (hvalue : value.IsWrapper tag payload)
    (hkey : tag.keyText ∈ listed.map Prod.fst) {error : UnionError}
    (herror : union.parseValue registry value = .error error) :
    ∃ report, error = .coercionFailed union.name tag.keyText report := by
  obtain ⟨⟨_, type⟩, hmem, rfl⟩ := List.mem_map.mp hkey
  rw [h.parseValue_known hvalue hmem] at herror
  exact gate_eq_error herror

theorem parseValue_malformed_iff (h : union.Wraps listed) :
    union.parseValue registry value = .error (.malformedUnionValue union.name) ↔
      ¬∃ tag payload : Json, value.IsWrapper tag payload := by
  refine ⟨fun hmalformed => ?_, h.parseValue_malformed⟩
  rintro ⟨tag, payload, hvalue⟩
  by_cases hkey : tag.keyText ∈ listed.map Prod.fst
  · obtain ⟨_, ⟨⟩⟩ := h.exists_report hvalue hkey hmalformed
  · rw [h.parseValue_unknown hvalue hkey] at hmalformed
    cases hmalformed

theorem parseValue_unknown_iff (h : union.Wraps listed) (hvalue : value.IsWrapper tag payload) :
    union.parseValue registry value =
      .error (.unknownDiscriminatorValue union.name tag.keyText (listed.map Prod.fst)) ↔
        tag.keyText ∉ listed.map Prod.fst := by
  refine ⟨fun hunknown hkey => ?_, h.parseValue_unknown hvalue⟩
  obtain ⟨_, ⟨⟩⟩ := h.exists_report hvalue hkey hunknown

theorem parseValue_eq_ok_iff (h : union.Wraps listed) (hvalue : value.IsWrapper tag payload)
    {type : NamedType} (hmem : (tag.keyText, type) ∈ listed) {out : Json} :
    union.parseValue registry value = .ok out ↔
      out = value ∧ (∃ text, tag = .string text) ∧
        (∀ name, (value.member? name).isSome → name = typeField ∨ name = valueField) ∧
        ∃ out, (InputType.named type).coerce registry payload = .ok out := by
  rw [h.parseValue_known hvalue hmem, gate_eq_ok]
  simp only [coerce_eq_ok_iff, exists_and_left, exists_eq, and_true, conforms_wrapperOf_iff hvalue]
  exact and_comm

end UnionType.Wraps

/-- **The outcome of each runtime value.** A union with listed candidates and without a type key
refuses as malformed what is not an object with a truthy tag and a truthy payload. Of the others, it
refuses those whose tag stands for none of the listed keys, and says all of them in order. What is
left is accepted, and given back as it is, if the tag is a string, there is no third member and the
candidate takes the payload; otherwise it is refused with the key and a report. -/
theorem parseValue_wrapping {config : UnionConfig} {candidates : Candidates}
    (hbuild : config.build = .ok union) (hkey : config.typeKey = none)
    (hcandidates : config.inputTypes = some candidates) (htypes : config.resolveType = none)
    (hvalues : config.resolveTypeFromValue = none) (registry : Registry) (value : Json) :
    (union.parseValue registry value = .error (.malformedUnionValue union.name) ↔
      ¬∃ tag payload : Json, value.IsWrapper tag payload) ∧
    ∀ tag payload : Json, value.IsWrapper tag payload →
      (union.parseValue registry value = .error (.unknownDiscriminatorValue union.name tag.keyText
          (candidates.listed.map Prod.fst)) ↔
        tag.keyText ∉ candidates.listed.map Prod.fst) ∧
      ∀ type, (tag.keyText, type) ∈ candidates.listed →
        (∀ out, union.parseValue registry value = .ok out ↔
          out = value ∧ (∃ text, tag = .string text) ∧
            (∀ name, (value.member? name).isSome → name = typeField ∨ name = valueField) ∧
            ∃ out, type.coerce registry payload = .ok out) ∧
        ((∀ out, union.parseValue registry value ≠ .ok out) →
          ∃ report, union.parseValue registry value =
            .error (.coercionFailed union.name tag.keyText report)) := by
  obtain ⟨listed, hlisted, hwraps⟩ := wraps_of_build hbuild hkey hcandidates htypes hvalues
  have hkeys : candidates.listed.map Prod.fst = listed.map Prod.fst := by
    rw [hlisted, List.map_map]
    rfl
  rw [hkeys]
  refine ⟨hwraps.parseValue_malformed_iff, fun tag payload hvalue =>
    ⟨hwraps.parseValue_unknown_iff hvalue, fun type hmem => ⟨fun out => ?_, fun hrefused => ?_⟩⟩⟩
  · rw [hlisted] at hmem
    obtain ⟨⟨_, payloadType⟩, hpair, hentry⟩ := List.mem_map.mp hmem
    obtain ⟨rfl, rfl⟩ := Prod.mk.inj hentry
    exact hwraps.parseValue_eq_ok_iff hvalue hpair
  · have hmem : tag.keyText ∈ listed.map Prod.fst := hkeys ▸ List.mem_map_of_mem hmem
    cases hparse : union.parseValue registry value with
    | ok out => exact absurd hparse (hrefused out)
    | error error =>
      obtain ⟨report, rfl⟩ := hwraps.exists_report hvalue hmem hparse
      exact ⟨report, rfl⟩

/-- A tag that is a number finds its candidate, but is not the string that the wrapper asks for. -/
theorem parseValue_wrapping_number : ∃ report, UnionType.parseValue .builtins
    (.object [("_type_", .number (.integer 5)), ("_value_", .number (.integer 7))])
    { name := "Size", description := none, typeKey := none
      lookup := .table [("5", .object (wrapperOf "5" (.builtin .int)))]
      keyOfValue := none, typeOfLiteral := none } =
        .error (.coercionFailed "Size" "5" report) := by
  have hbuild : UnionConfig.build
      { name := "Size", inputTypes := some (.keyed [("5", .named (.builtin .int))]) } =
        .ok { name := "Size", description := none, typeKey := none
              lookup := .table [("5", .object (wrapperOf "5" (.builtin .int)))]
              keyOfValue := none, typeOfLiteral := none } := by
    cbv
  have houtcome := (parseValue_wrapping hbuild rfl rfl rfl rfl .builtins
    (.object [("_type_", .number (.integer 5)), ("_value_", .number (.integer 7))])).2
    (.number (.integer 5)) (.number (.integer 7)) ⟨rfl, rfl, rfl, rfl⟩
  have hknown := houtcome.2 (.named (.builtin .int)) (List.mem_singleton.mpr (by cbv))
  refine hknown.2 fun out hout => ?_
  obtain ⟨-, ⟨text, ⟨⟩⟩, -⟩ := (hknown.1 out).mp hout

end Outcomes

end TaggedUnion
