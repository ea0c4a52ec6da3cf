import TaggedUnion.Proofs.Json.Spelling

/-!
# Compact text is read back

A value without numbers is read back from its compact text, whatever follows, if its containers fit
the nesting limit.

* `IsPlain`: the values without numbers, with a bound on their nesting.
* `moreItems`, `moreMembers`: what is written behind the first part of a container.
* `run_compact`, `parse_compact`: the text of a value is read as the value.
-/

namespace TaggedUnion.Json

/-- The values without numbers that nest no more than the given number of containers. -/
inductive IsPlain : Nat → Json → Prop where
  | null {depth : Nat} : IsPlain depth .null
  | bool {depth : Nat} {value : Bool} : IsPlain depth (.bool value)
  | string {depth : Nat} {value : String} : IsPlain depth (.string value)
  | array {depth : Nat} {items : List Json} (hitems : ∀ item ∈ items, IsPlain depth item) :
    IsPlain (depth + 1) (.array items)
  | object {depth : Nat} {members : List (String × Json)}
    (hmembers : ∀ member ∈ members, IsPlain depth member.2) : IsPlain (depth + 1) (.object members)

/-! ## Texts -/

/-- The characters of the items behind the first one. -/
def moreItems (items : List Json) : List Char :=
  items.flatMap fun item => ',' :: item.compact.toList

/-- The characters of a member from behind the opening quote of its name. -/
def memberText (member : String × Json) : List Char :=
  member.1.toList.flatMap escaped ++ '"' :: ':' :: member.2.compact.toList

/-- The characters of the members behind the first one. -/
def moreMembers (members : List (String × Json)) : List Char :=
  members.flatMap fun member => ',' :: '"' :: memberText member

section Texts

theorem toList_quoted {text : String} :
    (quoted text).toList = '"' :: (text.toList.flatMap escaped ++ ['"']) := by
  rw [quoted, String.toList_ofList]
  rfl

theorem toList_compactItems {first : Json} {others : List Json} :
    (compactItems (first :: others)).toList = first.compact.toList ++ moreItems others := by
  induction others generalizing first with
  | nil => simp [compactItems, moreItems]
  | cons next others ih => simp [compactItems, moreItems, ih]

theorem toList_compactMembers {first : String × Json} {others : List (String × Json)} :
    (compactMembers (first :: others)).toList =
      '"' :: (memberText first ++ moreMembers others) := by
  induction others generalizing first with
  | nil => simp [compactMembers, moreMembers, memberText, toList_quoted]
  | cons next others ih => simp [compactMembers, moreMembers, memberText, toList_quoted, ih]

theorem moreItems_cons {next : Json} {others : List Json} {rest : List Char} :
    moreItems (next :: others) ++ rest =
      ',' :: (next.compact.toList ++ (moreItems others ++ rest)) := by
  simp [moreItems]

theorem moreMembers_cons {next : String × Json} {others : List (String × Json)}
    {rest : List Char} : moreMembers (next :: others) ++ rest =
      ',' :: '"' :: (memberText next ++ (moreMembers others ++ rest)) := by
  simp [moreMembers]

theorem toList_compact_array {first : Json} {others : List Json} :
    (array (first :: others)).compact.toList =
      '[' :: (first.compact.toList ++ (moreItems others ++ [']'])) := by
  simp [compact, toList_compactItems]

theorem toList_compact_object {first : String × Json} {others : List (String × Json)} :
    (object (first :: others)).compact.toList =
      '\x7b' :: '"' :: (memberText first ++ (moreMembers others ++ ['\x7d'])) := by
  simp [compact, toList_compactMembers]

theorem toList_compact_string {text : String} :
    (string text).compact.toList = '"' :: (text.toList.flatMap escaped ++ ['"']) := by
  rw [compact, toList_quoted]

end Texts

/-! ## Reading -/

section Reading

variable {outside depth : Nat} {stack outer : List Frame} {value : Json} {rest : List Char}

theorem plain_escaped (d : Char) : ∀ c ∈ escaped d, 32 ≤ c.toNat := by
  have hdigit : ∀ n < 16, 32 ≤ (hexDigit n).toNat := by decide
  have hshort : ∀ letter : Char, 32 ≤ letter.toNat → ∀ c ∈ ['\\', letter], 32 ≤ c.toNat :=
    fun letter hletter =>
      List.forall_mem_cons.mpr ⟨by decide, List.forall_mem_singleton.mpr hletter⟩
  unfold escaped
  iterate 7
    split
    · exact hshort _ (by decide)
  split
  · have hhigh := hdigit (d.toNat / 16) (by omega)
    have hlow := hdigit (d.toNat % 16) (by omega)
    simp [hhigh, hlow]
  · rename_i hcontrol
    simpa using hcontrol

/-- No control character stands bare in a text. -/
theorem plain_flatMap_escaped {contents : List Char} :
    ∀ c ∈ contents.flatMap escaped, 32 ≤ c.toNat := by
  intro c hc
  obtain ⟨d, -, hc⟩ := List.mem_flatMap.mp hc
  exact plain_escaped d c hc

/-- A text starts with a character that is no blank and ends no array. -/
theorem IsPlain.exists_cons (h : value.IsPlain depth) :
    ∃ c cs, value.compact.toList = c :: cs ∧ isBlank c = false ∧ c ≠ ']' := by
  cases h with
  | null => exact ⟨'n', _, rfl, rfl, by decide⟩
  | @bool _ value =>
    cases value
    · exact ⟨'f', _, rfl, rfl, by decide⟩
    · exact ⟨'t', _, rfl, rfl, by decide⟩
  | string => exact ⟨'"', _, toList_compact_string, rfl, by decide⟩
  | @array _ items =>
    cases items with
    | nil => exact ⟨'[', [']'], rfl, rfl, by decide⟩
    | cons => exact ⟨'[', _, toList_compact_array, rfl, by decide⟩
  | @object _ members =>
    cases members with
    | nil => exact ⟨'\x7b', ['\x7d'], rfl, rfl, by decide⟩
    | cons => exact ⟨'\x7b', _, toList_compact_object, rfl, by decide⟩

/-- A part of a container is read, in whatever container it stands. -/
structure ReadsBack (outside : Nat) (outer : List Frame) (part : Json) : Prop where
  start : ∃ c cs, part.compact.toList = c :: cs ∧ isBlank c = false ∧ c ≠ ']'
  run : ∀ (frame : Frame) (rest : List Char),
    run outside (frame :: outer) .value (part.compact.toList ++ rest) =
      Json.run outside (frame :: outer) (.after part) rest

theorem blank_nil : Blank [] := nofun

/-- The start of an item behind a comma. -/
theorem readItemStart_more {item : Json}
    (hstart : ∃ c cs, item.compact.toList = c :: cs ∧ isBlank c = false ∧ c ≠ ']') :
    readItemStart false (',' :: (item.compact.toList ++ rest)) =
      .ok (.item (item.compact.toList ++ rest)) := by
  obtain ⟨c, cs, htext, hc, hclose⟩ := hstart
  rw [htext]
  exact readItemStart_next blank_nil blank_nil hc hclose

/-- The start of the first item. -/
theorem readItemStart_item {item : Json}
    (hstart : ∃ c cs, item.compact.toList = c :: cs ∧ isBlank c = false ∧ c ≠ ']') :
    readItemStart true (item.compact.toList ++ rest) =
      .ok (.item (item.compact.toList ++ rest)) := by
  obtain ⟨c, cs, htext, hc, hclose⟩ := hstart
  rw [htext]
  exact readItemStart_first blank_nil hc hclose

/-- A name is read up to the colon behind it. -/
theorem readName_member {member : String × Json} : readName (memberText member ++ rest) =
    .ok (.name member.1 (':' :: (member.2.compact.toList ++ rest))) := by
  have hread : readString (member.1.toList.flatMap escaped ++
      '"' :: ':' :: (member.2.compact.toList ++ rest)) = _ :=
    readString_quotes (Literal.quotes_escaped _) plain_flatMap_escaped
  simp [readName, memberText, hread]

theorem readColon_cons : readColon (':' :: rest) = .ok rest := by
  rfl

theorem afterMemberStart_member {members : List (String × Json)} {member : String × Json} :
    afterMemberStart outer members (readName (memberText member ++ rest)) =
      .ok (.next (.object members member.1 :: outer) .value (member.2.compact.toList ++ rest)) := by
  simp only [readName_member, afterMemberStart, readColon_cons]

/-- The first member of an object. -/
theorem readMemberStart_quote : readMemberStart true ('"' :: rest) = readName rest :=
  readMemberStart_first blank_nil

/-- A member behind a comma. -/
theorem readMemberStart_comma : readMemberStart false (',' :: '"' :: rest) = readName rest :=
  readMemberStart_next blank_nil blank_nil

/-- Behind an item, an array is read to its end. -/
theorem run_moreItems {others : List Json} (h : ∀ item ∈ others, ReadsBack outside outer item)
    (items : List Json) (value : Json) :
    run outside (.array items :: outer) (.after value) (moreItems others ++ ']' :: rest) =
      run outside outer (.after (.array (items.reverse ++ value :: others))) rest := by
  induction others generalizing items value with
  | nil =>
    have hclose : readItemStart false (']' :: rest) = .ok (.close rest) :=
      readItemStart_close blank_nil
    refine run_next ?_
    simp [step, moreItems, hclose, afterItemStart]
  | cons next others ih =>
    obtain ⟨hnext, hothers⟩ := List.forall_mem_cons.mp h
    have hstep : step outside (.array items :: outer) (.after value)
        (moreItems (next :: others) ++ ']' :: rest) =
          .ok (.next (.array (value :: items) :: outer) .value
            (next.compact.toList ++ (moreItems others ++ ']' :: rest))) := by
      rw [moreItems_cons]
      simp only [step, readItemStart_more hnext.start, afterItemStart]
    rw [run_next hstep, hnext.run, ih hothers]
    simp

/-- Behind a member, an object is read to its end. -/
theorem run_moreMembers {others : List (String × Json)}
    (h : ∀ member ∈ others, ReadsBack outside outer member.2) (members : List (String × Json))
    (name : String) (value : Json) :
    run outside (.object members name :: outer) (.after value)
        (moreMembers others ++ '\x7d' :: rest) =
      run outside outer (.after (.object (members.reverse ++ (name, value) :: others))) rest := by
  induction others generalizing members name value with
  | nil =>
    have hclose : readMemberStart false ('\x7d' :: rest) = .ok (.close rest) :=
      readMemberStart_close blank_nil
    refine run_next ?_
    simp [step, moreMembers, hclose, afterMemberStart]
  | cons next others ih =>
    obtain ⟨hnext, hothers⟩ := List.forall_mem_cons.mp h
    have hstep : step outside (.object members name :: outer) (.after value)
        (moreMembers (next :: others) ++ '\x7d' :: rest) =
          .ok (.next (.object ((name, value) :: members) next.1 :: outer) .value
            (next.2.compact.toList ++ (moreMembers others ++ '\x7d' :: rest))) := by
      rw [moreMembers_cons]
      simp only [step, readMemberStart_comma, afterMemberStart_member]
    rw [run_next hstep, hnext.run, ih hothers]
    simp

theorem run_scalar {c : Char} {cs : List Char} (hblank : isBlank c = false)
    (hbracket : ¬(c = '[' ∨ c = '\x7b')) (hread : readScalar c cs = .ok (value, rest)) :
    run outside stack .value (c :: cs) = run outside stack (.after value) rest := by
  refine run_next ?_
  simp only [step, stepValue, skipBlanks_cons hblank, if_neg hbracket, hread]

/-- **A value is read back from its text**, whatever containers are open around it. -/
theorem run_compact (h : value.IsPlain depth)
    (hroom : outside + stack.length + depth < depthLimit) :
    run outside stack .value (value.compact.toList ++ rest) =
      run outside stack (.after value) rest := by
  induction h generalizing stack rest with
  | null => exact run_scalar rfl (by decide) readKeyword_append
  | @bool _ value =>
    cases value
    · exact run_scalar rfl (by decide) readKeyword_append
    · exact run_scalar rfl (by decide) readKeyword_append
  | @string _ value =>
    have hread : readScalar '"' (value.toList.flatMap escaped ++ '"' :: rest) = _ :=
      readScalar_string (Literal.quotes_escaped value.toList) plain_flatMap_escaped
    rw [String.ofList_toList] at hread
    rw [toList_compact_string, List.cons_append, List.append_assoc]
    exact run_scalar rfl (by decide) hread
  | @array depth items hitems ih =>
    have hparts : ∀ item ∈ items, ReadsBack outside stack item := fun item hmem =>
      ⟨(hitems item hmem).exists_cons, fun frame rest => ih item hmem (by simp; omega)⟩
    have hopen : outside + stack.length + 1 < depthLimit := by omega
    cases items with
    | nil => exact run_next (step_emptyArray hopen blank_nil)
    | cons first others =>
      obtain ⟨hfirst, hothers⟩ := List.forall_mem_cons.mp hparts
      have hstep : step outside stack .value ((array (first :: others)).compact.toList ++ rest) =
          .ok (.next (.array [] :: stack) .value
            (first.compact.toList ++ (moreItems others ++ ']' :: rest))) := by
        simp only [toList_compact_array, List.cons_append, List.append_assoc, List.nil_append,
          step_openArray hopen, readItemStart_item hfirst.start, afterItemStart]
      rw [run_next hstep, hfirst.run, run_moreItems hothers]
      rfl
  | @object depth members hmembers ih =>
    have hparts : ∀ member ∈ members, ReadsBack outside stack member.2 := fun member hmem =>
      ⟨(hmembers member hmem).exists_cons, fun frame rest => ih member hmem (by simp; omega)⟩
    have hopen : outside + stack.length + 1 < depthLimit := by omega
    cases members with
    | nil => exact run_next (step_emptyObject hopen blank_nil)
    | cons first others =>
      obtain ⟨hfirst, hothers⟩ := List.forall_mem_cons.mp hparts
      have hstep : step outside stack .value ((object (first :: others)).compact.toList ++ rest) =
          .ok (.next (.object [] first.1 :: stack) .value
            (first.2.compact.toList ++ (moreMembers others ++ '\x7d' :: rest))) := by
        simp only [toList_compact_object, List.cons_append, List.append_assoc, List.nil_append,
          step_openObject hopen, readMemberStart_quote, afterMemberStart_member]
      rw [run_next hstep, hfirst.run, run_moreMembers hothers]
      rfl

/-- A value alone is read back, with what follows it. -/
theorem readValue_compact (h : value.IsPlain depth) (hroom : outside + depth < depthLimit) :
    readValue outside (value.compact.toList ++ rest) = .ok (value, rest) :=
  (run_compact h (by simpa using hroom)).trans run_done

/-- Read as a whole text, members of one name are merged. -/
theorem parse_compact (h : value.IsPlain depth) (hroom : depth < depthLimit) :
    parse value.compact = .ok value.merged := by
  have hread : readValue 0 (value.compact.toList ++ []) = .ok (value, []) :=
    readValue_compact h (by omega)
  rw [List.append_nil] at hread
  rw [parse, readWhole, hread]
  rfl

end Reading

end TaggedUnion.Json
