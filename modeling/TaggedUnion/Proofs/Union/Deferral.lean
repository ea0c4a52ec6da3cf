import TaggedUnion.Proofs.Coercion.NodeInduction
import TaggedUnion.Proofs.Union.Wrapping
import TaggedUnion.Union.Basic

/-!
# Listed and deferred candidates

A union is given its candidates as a list, or a function that finds one for each key. A list is
checked and wrapped when the union is built, what a function finds each time it is asked. Nothing
else tells the two apart but the keys that are said to have been expected.

* `UnionConfig.listing`, `UnionConfig.deferring`: one configuration with either.
* `UnionError.expecting`: an error with other expected keys.
* `Lookup.Answers`: what it takes for one lookup to stand for another.
* `listing_eq_deferring`: both unions give the same results for values and literals.
-/

namespace TaggedUnion

/-- The union with the candidates in a list, each under its key. -/
def UnionConfig.listing (config : UnionConfig) (pairs : List (String × InputType)) : UnionConfig :=
  { config with inputTypes := some (.keyed pairs), resolveType := none }

/-- The union with a function from keys to candidates. Listed candidates do not matter then. -/
def UnionConfig.deferring (config : UnionConfig) (types : String → Option InputType) :
    UnionConfig :=
  { config with resolveType := some types }

/-- An error for an unknown key says that these keys have been expected. Others stay as they are. -/
def UnionError.expecting (keys : List String) : UnionError → UnionError
  | unknownDiscriminatorValue union key _ => unknownDiscriminatorValue union key keys
  | error => error

/-! ## Lookups -/

/-- One lookup finds what the other does, and for an unknown key says that these keys have been
expected. -/
def Lookup.Answers (union : String) (keys : List String) (lookup other : Lookup) : Prop :=
  ∀ key, lookup.resolve union key = (other.resolve union key).mapError (·.expecting keys)

section Lookups

variable {union : String} {listed : List (String × NamedType)}
  {types : String → Option InputType} {wrap : Bool}

theorem lookup_map_listedEntry {key : String} :
    (listed.map listedEntry).lookup key = (listed.lookup key).map .named := by
  induction listed with
  | nil => rfl
  | cons pair rest ih =>
    have hhead : (listedEntry pair).1 = pair.1 := rfl
    rw [List.map_cons, List.lookup_cons, List.lookup_cons, hhead, ih]
    cases key == pair.1 <;> rfl

/-- A key is unknown to the table and to the function, or both find the type under it. What is
found is checked and wrapped in the same way before and after. -/
theorem resolve_listed_cases (union : String) (wrap : Bool)
    (hkinds : ∀ pair ∈ listed, pair.2.kind ≠ .enum)
    (hanswers : ∀ key, types key = (listed.map listedEntry).lookup key)
    (key : String) :
    ((Lookup.table (listed.map (tableEntry wrap))).resolve union key =
        .error (.unknownDiscriminatorValue union key (listed.map Prod.fst)) ∧
      (Lookup.deferred types wrap).resolve union key =
        .error (.unknownDiscriminatorValue union key [])) ∨
    ∃ type, (Lookup.table (listed.map (tableEntry wrap))).resolve union key = .ok type ∧
      (Lookup.deferred types wrap).resolve union key = .ok type := by
  have htypes : types key = (listed.lookup key).map .named := by
    rw [hanswers, lookup_map_listedEntry]
  unfold Lookup.resolve
  simp only [lookup_map_tableEntry, htypes]
  cases hlookup : listed.lookup key with
  | none =>
    refine .inl ⟨?_, rfl⟩
    simp only [Option.map_none, List.map_map]
    rfl
  | some payload =>
    obtain ⟨before, after, hsplit, -⟩ := List.lookup_eq_some_iff.mp hlookup
    have hmem : (key, payload) ∈ listed := hsplit ▸ List.mem_append_right _ List.mem_cons_self
    exact .inr ⟨_, rfl, candidate_eq_ok_iff.mpr ⟨hkinds _ hmem, rfl⟩⟩

/-- A table of candidates answers as the function does, and lists its keys. The function answers as
the table does, and lists none. -/
theorem answers_listed (union : String) (wrap : Bool)
    (hkinds : ∀ pair ∈ listed, pair.2.kind ≠ .enum)
    (hanswers : ∀ key, types key = (listed.map listedEntry).lookup key) :
    Lookup.Answers union (listed.map Prod.fst) (.table (listed.map (tableEntry wrap)))
        (.deferred types wrap) ∧
      Lookup.Answers union [] (.deferred types wrap)
        (.table (listed.map (tableEntry wrap))) := by
  refine forall_and.mp fun key => ?_
  obtain ⟨htable, hdeferred⟩ | ⟨type, htable, hdeferred⟩ :=
    resolve_listed_cases union wrap hkinds hanswers key
  · rw [htable, hdeferred]
    exact ⟨rfl, rfl⟩
  · rw [htable, hdeferred]
    exact ⟨rfl, rfl⟩

end Lookups

/-! ## Unions that differ in the lookup -/

section Unions

variable (union : UnionType) {lookup other : Lookup} {keys : List String}

/-- A key that cannot be read is not an unknown key. -/
theorem expecting_of_valueKey {value : Json} {error : UnionError}
    (h : union.valueKey value = .error error) : error.expecting keys = error := by
  unfold UnionType.valueKey at h
  split at h
  · cases h
  · split at h <;> cases h
    rfl
  · split at h <;> cases h
    rfl

theorem expecting_of_literalTarget {source : Source} {node : Literal.Node} {error : UnionError}
    (h : union.literalTarget source node = .error error) : error.expecting keys = error := by
  unfold UnionType.literalTarget at h
  split at h
  · split at h <;> cases h
    rfl
  · split at h <;> cases h
    rfl
  · split at h <;> cases h
    rfl

theorem expecting_of_ensureCandidate {name key : String} {type : InputType} {error : UnionError}
    (h : ensureCandidate name key type = .error error) : error.expecting keys = error := by
  unfold ensureCandidate at h
  split at h
  · split at h <;> cases h
    rfl
  · cases h
    rfl

theorem typeOfValue_eq_mapError (h : Lookup.Answers union.name keys lookup other) (value : Json) :
    UnionType.typeOfValue { union with lookup := lookup } value =
      (UnionType.typeOfValue { union with lookup := other } value).mapError
        (·.expecting keys) := by
  have hkey : ∀ lookup, UnionType.valueKey { union with lookup := lookup } value =
      union.valueKey value := fun _ => rfl
  unfold UnionType.typeOfValue
  simp only [hkey]
  cases hread : union.valueKey value with
  | error error => exact congrArg Except.error (expecting_of_valueKey union hread).symm
  | ok key => exact h key

theorem typeOfNode_eq_mapError (h : Lookup.Answers union.name keys lookup other) (source : Source)
    (node : Literal.Node) :
    UnionType.typeOfNode { union with lookup := lookup } source node =
      (UnionType.typeOfNode { union with lookup := other } source node).mapError
        (·.expecting keys) := by
  have htarget : ∀ lookup, UnionType.literalTarget { union with lookup := lookup } source node =
      union.literalTarget source node := fun _ => rfl
  unfold UnionType.typeOfNode
  simp only [htarget]
  cases hread : union.literalTarget source node with
  | error error => exact congrArg Except.error (expecting_of_literalTarget union hread).symm
  | ok target =>
    cases target with
    | key key => exact h key
    | type type =>
      -- The candidate that a callback gives is not looked up.
      simp only []
      cases hensure : ensureCandidate union.name type.text type with
      | error error => exact congrArg Except.error (expecting_of_ensureCandidate hensure).symm
      | ok named => rfl

/-- A value that has a candidate is checked against it, and the error is a report then. -/
theorem parseValue_eq_mapError (h : Lookup.Answers union.name keys lookup other)
    (registry : Registry) (value : Json) :
    UnionType.parseValue registry value { union with lookup := lookup } =
      (UnionType.parseValue registry value { union with lookup := other }).mapError
        (·.expecting keys) := by
  have htype := typeOfValue_eq_mapError union h value
  cases hother : UnionType.typeOfValue { union with lookup := other } value with
  | error error =>
    rw [hother] at htype
    rw [parseValue_of_typeOfValue_error htype, parseValue_of_typeOfValue_error hother]
    rfl
  | ok type =>
    rw [hother] at htype
    rw [parseValue_of_typeOfValue htype, parseValue_of_typeOfValue hother]
    cases (InputType.named type).coerce registry value <;> rfl

/-- A literal that has a candidate is converted under it, and the error is a mismatch then. -/
theorem parseLiteral_eq_mapError (h : Lookup.Answers union.name keys lookup other)
    (registry : Registry) (source : Source) (node : Literal.Node) :
    UnionType.parseLiteral registry source node { union with lookup := lookup } =
      (UnionType.parseLiteral registry source node { union with lookup := other }).mapError
        (·.expecting keys) := by
  have htype := typeOfNode_eq_mapError union h source node
  cases hother : UnionType.typeOfNode { union with lookup := other } source node with
  | error error =>
    rw [hother] at htype
    rw [parseLiteral_of_typeOfNode_error htype, parseLiteral_of_typeOfNode_error hother]
    rfl
  | ok type =>
    rw [hother] at htype
    rw [parseLiteral_of_typeOfNode htype, parseLiteral_of_typeOfNode hother]
    unfold gateLiteral
    cases (InputType.named type).convert registry source node <;> rfl

end Unions

/-! ## Building -/

section Build

variable {config : UnionConfig}

/-- The union of a configuration with another lookup in place of its own. -/
def UnionConfig.unionWith (config : UnionConfig) (lookup : Lookup) : UnionType :=
  { name := config.name
    description := config.description
    typeKey := config.typeKey
    lookup := lookup
    keyOfValue := config.resolveTypeFromValue
    typeOfLiteral := config.resolveTypeFromLiteral }

theorem build_of_not_isName (h : Text.isName config.name = false) :
    config.build = .error (.invalidName config.name) := by
  simp [UnionConfig.build, h]

theorem build_of_lookup (config : UnionConfig) {lookup : Lookup} (hname : Text.isName config.name)
    (h : config.lookup = .ok lookup) : config.build = .ok (config.unionWith lookup) := by
  simp only [UnionConfig.build, hname, Bool.not_true, Bool.false_eq_true, ↓reduceIte, h]
  rfl

theorem lookup_deferring (types : String → Option InputType) :
    (config.deferring types).lookup = .ok (.deferred types config.typeKey.isNone) := rfl

theorem lookup_listing {listed : List (String × NamedType)} (hkeys : (listed.map Prod.fst).Nodup)
    (hkinds : ∀ pair ∈ listed, pair.2.kind ≠ .enum) :
    (config.listing (listed.map listedEntry)).lookup =
      .ok (.table (listed.map (tableEntry config.typeKey.isNone))) := by
  have hentries : Lookup.entriesOf config.name (.keyed (listed.map listedEntry))
      config.typeKey.isNone = .ok (listed.map (tableEntry config.typeKey.isNone)) :=
    (foldlM_addEntry_eq_ok_iff (by simp)).mpr ⟨by simpa using hkeys, hkinds, rfl⟩
  unfold UnionConfig.lookup UnionConfig.listing Lookup.ofCandidates
  simp only [hentries]
  rfl

/-- Objects and scalars are named types. -/
theorem exists_named_of_kind {pairs : List (String × InputType)}
    (h : ∀ pair ∈ pairs, pair.2.kind = .object ∨ pair.2.kind = .scalar) :
    ∃ listed : List (String × NamedType), pairs = listed.map listedEntry ∧
      ∀ pair ∈ listed, pair.2.kind ≠ .enum := by
  induction pairs with
  | nil => exact ⟨[], rfl, by simp⟩
  | cons pair rest ih =>
    obtain ⟨hkind, hrest⟩ := List.forall_mem_cons.mp h
    obtain ⟨listed, rfl, hkinds⟩ := ih hrest
    obtain ⟨key, type⟩ := pair
    cases type with
    | named type =>
      refine ⟨(key, type) :: listed, rfl, List.forall_mem_cons.mpr ⟨?_, hkinds⟩⟩
      rcases hkind with hkind | hkind <;>
      · intro henum
        cases hkind.symm.trans henum
    | _ => simp [InputType.kind] at hkind

/-- **Listed and deferred candidates are the same.** A configuration, whatever its type key and its
callbacks, is given candidates that are objects or scalars under distinct keys, or instead a
function that finds the first candidate under a key. If the name is not valid, neither union can be
built. Otherwise both can, and for each runtime value and each literal they give the same result or
the same error, except that for an unknown key the one lists the keys and the other none. -/
theorem listing_eq_deferring (config : UnionConfig) {pairs : List (String × InputType)}
    {types : String → Option InputType} (hkeys : (pairs.map Prod.fst).Nodup)
    (hkinds : ∀ pair ∈ pairs, pair.2.kind = .object ∨ pair.2.kind = .scalar)
    (hanswers : ∀ key, types key = pairs.lookup key) :
    (Text.isName config.name = false →
      (config.listing pairs).build = .error (.invalidName config.name) ∧
      (config.deferring types).build = .error (.invalidName config.name)) ∧
    (Text.isName config.name = true → ∃ eager deferred,
      (config.listing pairs).build = .ok eager ∧ (config.deferring types).build = .ok deferred ∧
      ∀ registry,
        (∀ value,
          eager.parseValue registry value =
            (deferred.parseValue registry value).mapError (·.expecting (pairs.map Prod.fst)) ∧
          deferred.parseValue registry value =
            (eager.parseValue registry value).mapError (·.expecting [])) ∧
        ∀ source node,
          eager.parseLiteral registry source node =
            (deferred.parseLiteral registry source node).mapError
              (·.expecting (pairs.map Prod.fst)) ∧
          deferred.parseLiteral registry source node =
            (eager.parseLiteral registry source node).mapError (·.expecting [])) := by
  obtain ⟨listed, rfl, hlisted⟩ := exists_named_of_kind hkinds
  have hfst : (listed.map listedEntry).map Prod.fst = listed.map Prod.fst := by
    rw [List.map_map]
    rfl
  rw [hfst] at hkeys ⊢
  refine ⟨fun hname => ⟨build_of_not_isName hname, build_of_not_isName hname⟩, fun hname => ?_⟩
  obtain ⟨htable, hdeferred⟩ :=
    answers_listed config.name config.typeKey.isNone hlisted hanswers
  refine ⟨config.unionWith (.table (listed.map (tableEntry config.typeKey.isNone))),
    config.unionWith (.deferred types config.typeKey.isNone),
    build_of_lookup (config.listing _) hname (lookup_listing hkeys hlisted),
    build_of_lookup (config.deferring types) hname (lookup_deferring types),
    fun registry => ⟨fun value => ⟨?_, ?_⟩, fun source node => ⟨?_, ?_⟩⟩⟩
  · exact parseValue_eq_mapError (config.unionWith .absent) htable registry value
  · exact parseValue_eq_mapError (config.unionWith .absent) hdeferred registry value
  · exact parseLiteral_eq_mapError (config.unionWith .absent) htable registry source node
  · exact parseLiteral_eq_mapError (config.unionWith .absent) hdeferred registry source node

/-- The candidates of a union of sizes. -/
def sizes : List (String × InputType) :=
  [("small", .named (.builtin .int)), ("large", .named (.builtin .float))]

/-- A union of sizes, which reads the key from a member of its own. -/
def sizeConfig : UnionConfig :=
  { name := "Size"
    resolveTypeFromValue := some fun value => ((value.member? "size").map Json.keyText).getD "" }

/-- A key that neither of two unions knows is answered with the keys of the one that has a list. -/
theorem listing_deferring_sizes : ∃ eager deferred,
    (sizeConfig.listing sizes).build = .ok eager ∧
    (sizeConfig.deferring fun key => sizes.lookup key).build = .ok deferred ∧
    eager.parseValue .builtins (.object [("size", .string "huge")]) =
      .error (.unknownDiscriminatorValue "Size" "huge" ["small", "large"]) ∧
    deferred.parseValue .builtins (.object [("size", .string "huge")]) =
      .error (.unknownDiscriminatorValue "Size" "huge" []) := by
  obtain ⟨eager, deferred, heager, hdeferred, hsame⟩ :=
    (listing_eq_deferring sizeConfig (by decide) (by decide) fun key =>
      (rfl : sizes.lookup key = sizes.lookup key)).2 (by decide)
  refine ⟨eager, deferred, heager, hdeferred, ?_⟩
  have hunknown : deferred.parseValue .builtins (.object [("size", .string "huge")]) =
      .error (.unknownDiscriminatorValue "Size" "huge" []) := by
    cases hdeferred
    exact parseValue_of_typeOfValue_error rfl
  refine ⟨?_, hunknown⟩
  rw [((hsame .builtins).1 _).1, hunknown]
  rfl

end Build

end TaggedUnion
