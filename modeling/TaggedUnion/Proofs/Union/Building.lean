import TaggedUnion.Outcome
import TaggedUnion.Proofs.Union.Resolution
import TaggedUnion.Schema.Build

/-!
# Which unions can be built

The union of a declaration, and when there is one.

* `CandidateNames.keys`: the keys of the candidates that are listed.
* `UnionDef.unionOf`: the union of a declaration, given the types that it names.
* `unionType_eq_ok_iff`: building it succeeds if its name obeys the rule, no key is repeated and no
  candidate is an enum.
-/

namespace TaggedUnion

/-- The keys in order. -/
def CandidateNames.keys : CandidateNames → List String
  | byName names => names
  | keyed pairs => pairs.map Prod.fst

/-- Each candidate has a key. -/
theorem CandidateNames.length_keys {names : CandidateNames} {types : List NamedType}
    (h : types.map NamedType.name = names.names) : names.keys.length = types.length := by
  rw [← List.length_map NamedType.name, h]
  cases names <;> simp [keys, CandidateNames.names]

/-- A candidate as the table of a union holds it. -/
def tableEntry (wrap : Bool) (pair : String × NamedType) : String × NamedType :=
  (pair.1, if wrap then .object (wrapperOf pair.1 pair.2) else pair.2)

/-- The union of a declaration whose candidates are the given types. -/
def UnionDef.unionOf (declaration : UnionDef) (types : List NamedType) : UnionType :=
  { name := declaration.name
    description := declaration.description
    typeKey := declaration.typeKey
    lookup := .table
      ((declaration.inputTypes.keys.zip types).map (tableEntry declaration.typeKey.isNone))
    keyOfValue := none
    typeOfLiteral := none }

/-! ## Tables -/

section Tables

variable {union : String} {wrap : Bool}

theorem candidate_eq_ok_iff {key : String} {payload type : NamedType} :
    candidate union wrap key (.named payload) = .ok type ↔
      payload.kind ≠ .enum ∧ type = (tableEntry wrap (key, payload)).2 := by
  unfold candidate wrapper tableEntry
  cases wrap with
  | true =>
    simp only [↓reduceIte, map_eq_ok, ensureCandidate_eq_ok_iff, InputType.named.injEq]
    grind
  | false =>
    simp only [Bool.false_eq_true, ↓reduceIte, ensureCandidate_eq_ok_iff, InputType.named.injEq]
    grind

theorem addEntry_eq_ok_iff {entries out : List (String × NamedType)} {key : String}
    {type : NamedType} :
    Lookup.addEntry union wrap entries (key, .named type) = .ok out ↔
      key ∉ entries.map Prod.fst ∧ type.kind ≠ .enum ∧
        out = entries ++ [tableEntry wrap (key, type)] := by
  have hnew : (entries.any fun entry => entry.1 = key) ↔ key ∈ entries.map Prod.fst := by
    simp
  unfold Lookup.addEntry
  by_cases hmem : key ∈ entries.map Prod.fst
  · simp [hnew.mpr hmem, hmem]
  · rw [if_neg (mt hnew.mp hmem), map_eq_ok]
    simp only [candidate_eq_ok_iff]
    constructor
    · rintro ⟨_, ⟨hkind, rfl⟩, rfl⟩
      exact ⟨hmem, hkind, rfl⟩
    · rintro ⟨-, hkind, rfl⟩
      exact ⟨_, ⟨hkind, rfl⟩, rfl⟩

/-- A table can be built if the keys are distinct and no candidate is an enum. -/
theorem foldlM_addEntry_eq_ok_iff {pairs entries out : List (String × NamedType)}
    (hentries : (entries.map Prod.fst).Nodup) :
    (pairs.map fun pair => (pair.1, InputType.named pair.2)).foldlM (Lookup.addEntry union wrap)
        entries = .ok out ↔
      (entries.map Prod.fst ++ pairs.map Prod.fst).Nodup ∧
        (∀ pair ∈ pairs, pair.2.kind ≠ .enum) ∧ out = entries ++ pairs.map (tableEntry wrap) := by
  induction pairs generalizing entries with
  | nil => simp [hentries, pure, Except.pure, eq_comm]
  | cons pair rest ih =>
    have hkeys : (entries ++ [tableEntry wrap pair]).map Prod.fst ++ rest.map Prod.fst =
        entries.map Prod.fst ++ (pair :: rest).map Prod.fst := by
      simp [tableEntry]
    have hsub : ∀ {keys : List String}, (entries.map Prod.fst ++ pair.1 :: keys).Nodup →
        pair.1 ∉ entries.map Prod.fst := by
      intro keys hnodup hmem
      exact (List.nodup_append.mp hnodup).2.2 _ hmem _ List.mem_cons_self rfl
    rw [List.map_cons, foldlM_cons_eq_ok]
    constructor
    · rintro ⟨entries', hadd, hrest⟩
      obtain ⟨hnew, hkind, rfl⟩ := addEntry_eq_ok_iff.mp hadd
      have hnodup : ((entries ++ [tableEntry wrap pair]).map Prod.fst).Nodup := by
        rw [List.map_append]
        exact nodup_snoc.mpr ⟨hentries, hnew⟩
      obtain ⟨hdistinct, hkinds, rfl⟩ := (ih hnodup).mp hrest
      rw [hkeys] at hdistinct
      exact ⟨hdistinct, List.forall_mem_cons.mpr ⟨hkind, hkinds⟩, by simp⟩
    · rintro ⟨hdistinct, hkinds, rfl⟩
      obtain ⟨hkind, hkinds⟩ := List.forall_mem_cons.mp hkinds
      refine ⟨_, addEntry_eq_ok_iff.mpr ⟨hsub hdistinct, hkind, rfl⟩, (ih ?_).mpr ⟨?_, hkinds, ?_⟩⟩
      · rw [← hkeys] at hdistinct
        exact (List.nodup_append.mp hdistinct).1
      · rwa [hkeys]
      · simp

end Tables

/-! ## Unions -/

/-- Candidates without keys have their names for keys, unless one is an enum. -/
theorem mapM_ensureCandidate_eq_ok_iff {union : String} {types : List NamedType}
    {pairs : List (String × InputType)} :
    ((types.map InputType.named).mapM fun type =>
        (ensureCandidate union type.text type).map fun t => (t.name, type)) = .ok pairs ↔
      (∀ type ∈ types, type.kind ≠ .enum) ∧
        pairs = types.map fun type => (type.name, .named type) := by
  induction types generalizing pairs with
  | nil => simp [pure, Except.pure, eq_comm]
  | cons type rest ih =>
    rw [List.map_cons, List.mapM_cons, bind_eq_ok]
    simp only [map_eq_ok, ensureCandidate_eq_ok_iff, bind_eq_ok, ih]
    constructor
    · rintro ⟨_, ⟨named, ⟨hnamed, hkind⟩, rfl⟩, _, ⟨hkinds, rfl⟩, hpairs⟩
      cases hnamed
      cases hpairs
      exact ⟨List.forall_mem_cons.mpr ⟨hkind, hkinds⟩, rfl⟩
    · rintro ⟨hkinds, rfl⟩
      obtain ⟨hkind, hkinds⟩ := List.forall_mem_cons.mp hkinds
      exact ⟨_, ⟨type, ⟨rfl, hkind⟩, rfl⟩, _, ⟨hkinds, rfl⟩, rfl⟩

/-- Candidates listed by name stand under their names. -/
theorem zip_names {types : List NamedType} :
    (types.map NamedType.name).zip types = types.map fun type => (type.name, type) := by
  induction types with
  | nil => rfl
  | cons type rest ih => rw [List.map_cons, List.zip_cons_cons, ih, List.map_cons]

theorem entriesOf_eq_ok_iff {union : String} {names : CandidateNames} {types : List NamedType}
    {wrap : Bool} {entries : List (String × NamedType)}
    (hnames : types.map NamedType.name = names.names) :
    Lookup.entriesOf union (Document.candidates names types) wrap = .ok entries ↔
      names.keys.Nodup ∧ (∀ type ∈ types, type.kind ≠ .enum) ∧
        entries = (names.keys.zip types).map (tableEntry wrap) := by
  have hlength := CandidateNames.length_keys hnames
  have htable : ((names.keys.zip types).map fun pair => (pair.1, InputType.named pair.2)).foldlM
        (Lookup.addEntry union wrap) [] = .ok entries ↔
      names.keys.Nodup ∧ (∀ type ∈ types, type.kind ≠ .enum) ∧
        entries = (names.keys.zip types).map (tableEntry wrap) := by
    have hkeys : (names.keys.zip types).map Prod.fst = names.keys := List.map_fst_zip (by omega)
    have htypes : (names.keys.zip types).map Prod.snd = types := List.map_snd_zip (by omega)
    have hkinds : (∀ pair ∈ names.keys.zip types, pair.2.kind ≠ .enum) ↔
        ∀ type ∈ types, type.kind ≠ .enum := by
      rw [← List.forall_mem_map (P := fun type : NamedType => type.kind ≠ .enum), htypes]
    rw [foldlM_addEntry_eq_ok_iff (by simp), hkeys, hkinds, List.map_nil, List.nil_append,
      List.nil_append]
  rw [← htable]
  unfold Lookup.entriesOf Document.candidates Candidates.pairs
  cases names with
  | byName listed =>
    subst hnames
    have hpairs : (((CandidateNames.byName (types.map NamedType.name)).keys.zip types).map
        fun pair => (pair.1, InputType.named pair.2)) =
          types.map fun type => (type.name, .named type) := by
      rw [CandidateNames.keys, zip_names, List.map_map]
      rfl
    by_cases hkinds : ∀ type ∈ types, type.kind ≠ .enum
    · simp only [hpairs, mapM_ensureCandidate_eq_ok_iff.mpr ⟨hkinds, rfl⟩]
    · -- An enum is refused when the names are read, so no table is built.
      refine ⟨fun h => ?_, fun h => absurd (htable.mp h).2.1 hkinds⟩
      simp only [] at h
      split at h
      · simp at h
      · rename_i pairs hread
        exact absurd (mapM_ensureCandidate_eq_ok_iff.mp hread).1 hkinds
  | keyed listed =>
    have hpairs : (((CandidateNames.keyed listed).keys.zip types).map
        fun pair => (pair.1, InputType.named pair.2)) =
          (listed.map Prod.fst).zip (types.map .named) := by
      rw [CandidateNames.keys, List.zip_map_right]
      rfl
    rw [hpairs]

theorem unionType_eq_ok_iff {declaration : UnionDef} {types : List NamedType} {union : UnionType}
    (hnames : types.map NamedType.name = declaration.inputTypes.names) :
    Document.unionType declaration types = .ok union ↔
      Text.isName declaration.name ∧ declaration.inputTypes.keys.Nodup ∧
        (∀ type ∈ types, type.kind ≠ .enum) ∧ union = declaration.unionOf types := by
  unfold Document.unionType UnionConfig.build UnionConfig.lookup Lookup.ofCandidates
  simp only [Bool.not_eq_true']
  cases Text.isName declaration.name with
  | false => simp
  | true =>
    simp only [Bool.true_eq_false, ↓reduceIte, map_eq_ok, entriesOf_eq_ok_iff hnames, true_and]
    constructor
    · rintro ⟨_, ⟨_, ⟨hkeys, hkinds, rfl⟩, rfl⟩, rfl⟩
      exact ⟨hkeys, hkinds, rfl⟩
    · rintro ⟨hkeys, hkinds, rfl⟩
      exact ⟨_, ⟨_, ⟨hkeys, hkinds, rfl⟩, rfl⟩, rfl⟩

end TaggedUnion
