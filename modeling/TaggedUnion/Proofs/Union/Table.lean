import TaggedUnion.Proofs.Union.Wrapping

/-!
# The table of candidates

A table is made of candidates if each of them is an object type or a scalar and no key is repeated.
Otherwise the error tells the first fault. Types that are listed without keys all have their kinds
looked at before any name; of types with keys, one after the other is looked at, its key first.

* `InputType.IsCandidate`, `AreSound`: the types that may be candidates, and the lists of which a
  table is made.
* `IsEntry`: what a table holds for a candidate.
* `Candidates.FirstFault`: the error of candidates of which no table is made.
* `entriesOf_eq_ok_iff_sound`, `entriesOf_eq_error_iff`: the two outcomes.
* `ofCandidates_total`: both together, with what is looked up in the table.
-/

namespace TaggedUnion

/-- Object types and scalars may be candidates. -/
def InputType.IsCandidate (type : InputType) : Prop := type.kind = .object ∨ type.kind = .scalar

/-- All types may be candidates, and their keys are distinct. -/
structure AreSound (pairs : List (String × InputType)) : Prop where
  kinds : ∀ pair ∈ pairs, pair.2.IsCandidate
  keys : (pairs.map Prod.fst).Nodup

/-- What a table holds for a key and a type: the type itself, or where the table wraps, an object
type named for the key with the fields `_type_ : String` and `_value_` of the type. -/
inductive IsEntry : Bool → String × InputType → String × NamedType → Prop where
  | plain {key : String} {type : NamedType} : IsEntry false (key, .named type) (key, type)
  | wrapped {key : String} {type : InputType} : IsEntry true (key, type)
      (key, .object ⟨key, none,
        [⟨"_type_", .named (.builtin .string), none, none⟩, ⟨"_value_", type, none, none⟩]⟩)

/-- The error that candidates have in a union, if no table can be made of them. -/
inductive Candidates.FirstFault (union : String) : Candidates → UnionError → Prop where
  /-- Of the types without keys, this is the first that may not be a candidate. -/
  | kind {before after : List InputType} {type : InputType}
    (hbefore : ∀ other ∈ before, other.IsCandidate) (hkind : ¬type.IsCandidate) :
    FirstFault union (.byName (before ++ type :: after))
      (.invalidCandidateKind union type.text type.kind)
  /-- All types without keys may be candidates, and this is the first that repeats a name. -/
  | name {before after : List InputType} {type : InputType}
    (hkinds : ∀ other ∈ before ++ type :: after, other.IsCandidate)
    (hbefore : (before.map InputType.text).Nodup)
    (hrepeated : type.text ∈ before.map InputType.text) :
    FirstFault union (.byName (before ++ type :: after)) (.duplicateDiscriminator union type.text)
  /-- The first pair that cannot be added repeats a key. -/
  | key {before after : List (String × InputType)} {key : String} {type : InputType}
    (hbefore : AreSound before) (hrepeated : key ∈ before.map Prod.fst) :
    FirstFault union (.keyed (before ++ (key, type) :: after)) (.duplicateDiscriminator union key)
  /-- The first pair that cannot be added has a new key, and its type may not be a candidate. The
  error gives the name of the type, or the key where the type has no name. -/
  | keyedKind {before after : List (String × InputType)} {key : String} {type : InputType}
    (hbefore : AreSound before) (hnew : key ∉ before.map Prod.fst) (hkind : ¬type.IsCandidate) :
    FirstFault union (.keyed (before ++ (key, type) :: after))
      (.invalidCandidateKind union (type.name?.getD key) type.kind)

section Table

variable {union key : String} {wrap : Bool} {type : InputType} {error : UnionError}
  {pairs : List (String × InputType)} {entries : List (String × NamedType)}

/-! ## One candidate -/

theorem isCandidate_iff :
    type.IsCandidate ↔ ∃ named : NamedType, type = .named named ∧ named.kind ≠ .enum := by
  cases type with
  | named named => cases named <;> simp [InputType.IsCandidate, InputType.kind, NamedType.kind]
  | _ => simp [InputType.IsCandidate, InputType.kind]

theorem ensureCandidate_eq_error_iff : ensureCandidate union key type = .error error ↔
    ¬type.IsCandidate ∧
      error = .invalidCandidateKind union (type.name?.getD key) type.kind := by
  by_cases h : type.IsCandidate
  · obtain ⟨named, rfl, hkind⟩ := isCandidate_iff.mp h
    have hok : ensureCandidate union key (.named named) = .ok named :=
      ensureCandidate_eq_ok_iff.mpr ⟨rfl, hkind⟩
    simp [h, hok]
  · simp only [h, not_false_eq_true, true_and]
    cases type with
    | named named =>
      cases named with
      | enum =>
        simp [ensureCandidate, InputType.name?, InputType.kind, NamedType.kind,
          eq_comm (a := error)]
      | _ => simp [InputType.IsCandidate, InputType.kind, NamedType.kind] at h
    | _ => simp [ensureCandidate, eq_comm (a := error)]

/-- Wrapping refuses the same types. -/
theorem candidate_eq_error_iff : candidate union wrap key type = .error error ↔
    ¬type.IsCandidate ∧
      error = .invalidCandidateKind union (type.name?.getD key) type.kind := by
  rw [← ensureCandidate_eq_error_iff]
  cases wrap with
  | true => exact map_eq_error
  | false => rfl

theorem addEntry_eq_error_iff : Lookup.addEntry union wrap entries (key, type) = .error error ↔
    (key ∈ entries.map Prod.fst ∧ error = .duplicateDiscriminator union key) ∨
      key ∉ entries.map Prod.fst ∧ ¬type.IsCandidate ∧
        error = .invalidCandidateKind union (type.name?.getD key) type.kind := by
  have hnew : (entries.any fun entry => entry.1 = key) ↔ key ∈ entries.map Prod.fst := by
    simp
  unfold Lookup.addEntry
  by_cases hmem : key ∈ entries.map Prod.fst
  · simp [hnew.mpr hmem, hmem, eq_comm (a := error)]
  · rw [if_neg (mt hnew.mp hmem), map_eq_error, candidate_eq_error_iff]
    simp [hmem]

/-! ## Pairs in turn -/

theorem isEntry_listedEntry_iff {pair entry : String × NamedType} :
    IsEntry wrap (listedEntry pair) entry ↔ tableEntry wrap pair = entry := by
  cases wrap with
  | false => exact ⟨fun h => by cases h; rfl, fun h => h ▸ .plain⟩
  | true => exact ⟨fun h => by cases h; rfl, fun h => h ▸ .wrapped⟩

theorem forall₂_isEntry_iff {listed : List (String × NamedType)} :
    List.Forall₂ (IsEntry wrap) (listed.map listedEntry) entries ↔
      entries = listed.map (tableEntry wrap) := by
  rw [List.forall₂_map_left_iff, eq_comm (a := entries), ← List.forall₂_eq_eq_eq,
    List.forall₂_map_left_iff]
  simp only [isEntry_listedEntry_iff]

theorem keys_of_forall₂ (h : List.Forall₂ (IsEntry wrap) pairs entries) :
    entries.map Prod.fst = pairs.map Prod.fst := by
  induction h with
  | nil => rfl
  | cons hentry _ ih => cases hentry <;> rw [List.map_cons, List.map_cons, ih]

theorem areSound_listed_iff {listed : List (String × NamedType)} :
    AreSound (listed.map listedEntry) ↔
      (listed.map Prod.fst).Nodup ∧ ∀ pair ∈ listed, pair.2.kind ≠ .enum := by
  have hkeys : (listed.map listedEntry).map Prod.fst = listed.map Prod.fst := by
    rw [List.map_map]
    rfl
  have hkinds : (∀ pair ∈ listed.map listedEntry, pair.2.IsCandidate) ↔
      ∀ pair ∈ listed, pair.2.kind ≠ .enum := by
    rw [List.forall_mem_map]
    exact forall₂_congr fun pair _ => by simp [listedEntry, isCandidate_iff]
  constructor
  · rintro ⟨hall, hdistinct⟩
    exact ⟨hkeys ▸ hdistinct, hkinds.mp hall⟩
  · rintro ⟨hdistinct, hall⟩
    exact ⟨hkinds.mpr hall, hkeys.symm ▸ hdistinct⟩

/-- Types that may be candidates are named ones. -/
theorem exists_listed (h : ∀ pair ∈ pairs, pair.2.IsCandidate) :
    ∃ listed : List (String × NamedType), pairs = listed.map listedEntry := by
  have hrange : pairs ∈ Set.range (List.map listedEntry) := by
    rw [Set.range_list_map]
    intro pair hpair
    obtain ⟨named, hnamed, -⟩ := isCandidate_iff.mp (h pair hpair)
    exact ⟨(pair.1, named), by rw [listedEntry, ← hnamed]⟩
  obtain ⟨listed, hlisted⟩ := hrange
  exact ⟨listed, hlisted.symm⟩

/-- Whatever may be a candidate has its place in a table. -/
theorem exists_entries (h : ∀ pair ∈ pairs, pair.2.IsCandidate) :
    ∃ entries, List.Forall₂ (IsEntry wrap) pairs entries := by
  obtain ⟨listed, rfl⟩ := exists_listed h
  exact ⟨_, forall₂_isEntry_iff.mpr rfl⟩

theorem foldlM_eq_ok_iff_sound : pairs.foldlM (Lookup.addEntry union wrap) [] = .ok entries ↔
    AreSound pairs ∧ List.Forall₂ (IsEntry wrap) pairs entries := by
  have hlisted : ∀ {listed : List (String × NamedType)},
      (listed.map listedEntry).foldlM (Lookup.addEntry union wrap) [] = .ok entries ↔
        AreSound (listed.map listedEntry) ∧
          List.Forall₂ (IsEntry wrap) (listed.map listedEntry) entries := by
    intro listed
    rw [areSound_listed_iff, forall₂_isEntry_iff, and_assoc]
    exact foldlM_addEntry_eq_ok_iff (by simp)
  constructor
  · intro h
    obtain ⟨listed, rfl⟩ := exists_named_of_foldlM h
    exact hlisted.mp h
  · intro h
    obtain ⟨listed, rfl⟩ := exists_listed h.1.kinds
    exact hlisted.mpr h

theorem AreSound.exists_foldlM (h : AreSound pairs) :
    ∃ entries, pairs.foldlM (Lookup.addEntry union wrap) [] = .ok entries ∧
      entries.map Prod.fst = pairs.map Prod.fst := by
  obtain ⟨entries, hentries⟩ := exists_entries h.kinds
  exact ⟨entries, foldlM_eq_ok_iff_sound.mpr ⟨h, hentries⟩, keys_of_forall₂ hentries⟩

/-- The first pair that cannot be added gives the error. -/
theorem foldlM_eq_error_iff : pairs.foldlM (Lookup.addEntry union wrap) [] = .error error ↔
    (Candidates.keyed pairs).FirstFault union error := by
  rw [foldlM_eq_error]
  constructor
  · rintro ⟨before, ⟨key, type⟩, after, entries, rfl, hbefore, hadd⟩
    obtain ⟨hsound, hentries⟩ := foldlM_eq_ok_iff_sound.mp hbefore
    rw [addEntry_eq_error_iff, keys_of_forall₂ hentries] at hadd
    rcases hadd with ⟨hrepeated, rfl⟩ | ⟨hnew, hkind, rfl⟩
    · exact .key hsound hrepeated
    · exact .keyedKind hsound hnew hkind
  · intro h
    cases h with
    | key hsound hrepeated =>
      obtain ⟨entries, hfold, hkeys⟩ := hsound.exists_foldlM
      rw [← hkeys] at hrepeated
      exact ⟨_, _, _, entries, rfl, hfold, addEntry_eq_error_iff.mpr (.inl ⟨hrepeated, rfl⟩)⟩
    | keyedKind hsound hnew hkind =>
      obtain ⟨entries, hfold, hkeys⟩ := hsound.exists_foldlM
      rw [← hkeys] at hnew
      exact ⟨_, _, _, entries, rfl, hfold, addEntry_eq_error_iff.mpr (.inr ⟨hnew, hkind, rfl⟩)⟩

/-! ## Types in turn -/

section Listed

variable {types : List InputType}

theorem map_fst_pairs :
    (types.map fun type => (type.text, type)).map Prod.fst = types.map InputType.text := by
  rw [List.map_map]
  rfl

/-- A type that may be a candidate has its text for a name. -/
theorem pairs_of_isCandidate (h : ∀ type ∈ types, type.IsCandidate) :
    (Candidates.byName types).pairs union = .ok (Candidates.byName types).listed := by
  have hrange : types ∈ Set.range (List.map InputType.named) := by
    rw [Set.range_list_map]
    intro type htype
    obtain ⟨named, hnamed, -⟩ := isCandidate_iff.mp (h type htype)
    exact ⟨named, hnamed.symm⟩
  obtain ⟨named, rfl⟩ := hrange
  have hkinds : ∀ type ∈ named, type.kind ≠ .enum := by
    simpa [isCandidate_iff] using h
  rw [Candidates.pairs, mapM_ensureCandidate_eq_ok_iff.mpr ⟨hkinds, rfl⟩, Candidates.listed,
    List.map_map]
  rfl

/-- The first type that may not be a candidate gives the error. -/
theorem pairs_eq_error_iff : (Candidates.byName types).pairs union = .error error ↔
    ∃ before type after, types = before ++ type :: after ∧
      (∀ other ∈ before, other.IsCandidate) ∧ ¬type.IsCandidate ∧
        error = .invalidCandidateKind union type.text type.kind := by
  have hname : ∀ type : InputType, type.name?.getD type.text = type.text := fun type => by
    cases type <;> rfl
  have hok : ∀ type : InputType,
      (∃ pair, (ensureCandidate union type.text type).map (fun t => (t.name, type)) = .ok pair) ↔
        type.IsCandidate := by
    intro type
    simp [isCandidate_iff, ensureCandidate_eq_ok_iff]
  rw [Candidates.pairs, mapM_eq_error]
  simp only [hok, map_eq_error, ensureCandidate_eq_error_iff, hname]

/-- The types are looked at either all of them or up to the first that may not be a candidate. -/
theorem pairs_cases (union : String) (types : List InputType) :
    (∀ type ∈ types, type.IsCandidate) ∨
      ∃ error, (Candidates.byName types).pairs union = .error error := by
  rw [or_iff_not_imp_left]
  intro hbad
  cases hread : (Candidates.byName types).pairs union with
  | error error => exact ⟨error, rfl⟩
  | ok pairs =>
    refine absurd (fun type htype => ?_) hbad
    obtain ⟨named, rfl⟩ := exists_named_of_mapM hread
    obtain ⟨other, hother, rfl⟩ := List.mem_map.mp htype
    exact isCandidate_iff.mpr ⟨other, rfl, (mapM_ensureCandidate_eq_ok_iff.mp hread).1 other hother⟩

theorem entriesOf_of_isCandidate (h : ∀ type ∈ types, type.IsCandidate) :
    Lookup.entriesOf union (.byName types) wrap =
      (Candidates.byName types).listed.foldlM (Lookup.addEntry union wrap) [] := by
  rw [Lookup.entriesOf, pairs_of_isCandidate h]

theorem entriesOf_of_pairs (h : (Candidates.byName types).pairs union = .error error) :
    Lookup.entriesOf union (.byName types) wrap = .error error := by
  rw [Lookup.entriesOf, h]

end Listed

/-! ## The table -/

variable {candidates : Candidates}

theorem entriesOf_eq_ok_iff_sound : Lookup.entriesOf union candidates wrap = .ok entries ↔
    AreSound candidates.listed ∧ List.Forall₂ (IsEntry wrap) candidates.listed entries := by
  cases candidates with
  | keyed pairs => exact foldlM_eq_ok_iff_sound
  | byName types =>
    rcases pairs_cases union types with hkinds | ⟨error, hread⟩
    · rw [entriesOf_of_isCandidate hkinds, foldlM_eq_ok_iff_sound]
    · obtain ⟨before, type, after, rfl, -, hkind, -⟩ := pairs_eq_error_iff.mp hread
      rw [entriesOf_of_pairs hread]
      have hbad : ¬AreSound (Candidates.byName (before ++ type :: after)).listed := fun hsound =>
        hkind (hsound.kinds (type.text, type) (by simp [Candidates.listed]))
      simp [hbad]

theorem entriesOf_eq_error_iff : Lookup.entriesOf union candidates wrap = .error error ↔
    candidates.FirstFault union error := by
  cases candidates with
  | keyed pairs => exact foldlM_eq_error_iff
  | byName types =>
    constructor
    · intro h
      rcases pairs_cases union types with hkinds | ⟨error', hread⟩
      · rw [entriesOf_of_isCandidate hkinds, foldlM_eq_error_iff] at h
        -- All kinds are in order, so the fault of the pairs is that a name is repeated.
        generalize hlisted : (Candidates.byName types).listed = pairs at h
        cases h with
        | key hbefore hrepeated =>
          obtain ⟨before, _, rfl, rfl, hrest⟩ := List.map_eq_append_iff.mp hlisted
          obtain ⟨type, after, rfl, ⟨⟩, rfl⟩ := List.map_eq_cons_iff.mp hrest
          have hkeys := hbefore.keys
          rw [map_fst_pairs] at hkeys hrepeated
          exact .name hkinds hkeys hrepeated
        | keyedKind hbefore hnew hkind =>
          obtain ⟨before, _, rfl, rfl, hrest⟩ := List.map_eq_append_iff.mp hlisted
          obtain ⟨type, after, rfl, ⟨⟩, rfl⟩ := List.map_eq_cons_iff.mp hrest
          exact absurd (hkinds _ (by simp)) hkind
      · rw [entriesOf_of_pairs hread] at h
        cases h
        obtain ⟨before, type, after, rfl, hbefore, hkind, rfl⟩ := pairs_eq_error_iff.mp hread
        exact .kind hbefore hkind
    · intro h
      cases h with
      | kind hbefore hkind =>
        exact entriesOf_of_pairs (pairs_eq_error_iff.mpr ⟨_, _, _, rfl, hbefore, hkind, rfl⟩)
      | name hkinds hbefore hrepeated =>
        rw [entriesOf_of_isCandidate hkinds, foldlM_eq_error_iff, Candidates.listed,
          List.map_append, List.map_cons]
        refine .key ⟨?_, map_fst_pairs.symm ▸ hbefore⟩ (map_fst_pairs.symm ▸ hrepeated)
        rw [List.forall_mem_map]
        exact fun type htype => hkinds type (List.mem_append_left _ htype)

end Table

/-- **The table of candidates.** A table is made if each type may be a candidate and no key is
repeated. It has these keys in order, and what stands under a key is what is looked up. Otherwise
the error is the first fault. -/
theorem ofCandidates_total (union : String) (candidates : Candidates) (wrap : Bool) :
    ((∃ lookup, Lookup.ofCandidates union candidates wrap = .ok lookup) ↔
        AreSound candidates.listed) ∧
      (∀ lookup, Lookup.ofCandidates union candidates wrap = .ok lookup →
        lookup.keys? = some (candidates.listed.map Prod.fst) ∧
          ∃ entries, lookup = .table entries ∧
            List.Forall₂ (IsEntry wrap) candidates.listed entries ∧
            ∀ entry ∈ entries, lookup.resolve union entry.1 = .ok entry.2) ∧
      ∀ error, Lookup.ofCandidates union candidates wrap = .error error ↔
        candidates.FirstFault union error := by
  have hok : ∀ lookup, Lookup.ofCandidates union candidates wrap = .ok lookup ↔
      ∃ entries, lookup = .table entries ∧ AreSound candidates.listed ∧
        List.Forall₂ (IsEntry wrap) candidates.listed entries := by
    intro lookup
    rw [Lookup.ofCandidates, map_eq_ok]
    simp only [entriesOf_eq_ok_iff_sound, and_comm, eq_comm (a := lookup)]
  refine ⟨⟨?_, fun h => ?_⟩, fun lookup h => ?_, fun error => ?_⟩
  · rintro ⟨lookup, h⟩
    obtain ⟨entries, -, hsound, -⟩ := (hok lookup).mp h
    exact hsound
  · obtain ⟨entries, hentries⟩ := exists_entries h.kinds
    exact ⟨_, (hok _).mpr ⟨entries, rfl, h, hentries⟩⟩
  · obtain ⟨entries, rfl, hsound, hentries⟩ := (hok lookup).mp h
    have hkeys := keys_of_forall₂ hentries
    refine ⟨congrArg some hkeys, entries, rfl, hentries, fun entry hentry => ?_⟩
    rw [resolve_eq_ok_iff]
    exact .table (lookup_of_mem (hkeys ▸ hsound.keys) hentry)
  · rw [Lookup.ofCandidates, map_eq_error, entriesOf_eq_error_iff]

end TaggedUnion
