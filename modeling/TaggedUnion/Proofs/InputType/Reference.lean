import Mathlib
import TaggedUnion.InputType.Reference
import TaggedUnion.Outcome

/-!
# Which texts refer to a type

A type is written as a row of tokens: names, brackets and marks against null. A text refers to a
type if it is that row with blanks anywhere but inside a name.

* `Text.Spaced`: a row of tokens with blanks around each.
* `InputType.IsReference`: the types that can be written.
* `InputType.tokens`: the tokens of a type, of which its text is made.
* `parse_eq_ok_iff_spaced`: the texts of each type, what all others are refused with, and the types
  that are read back from their own text.
-/

namespace TaggedUnion

/-! ## Blanks around tokens -/

namespace Text

/-- The texts in which the tokens stand one after the other, with blanks before, between and behind
them. -/
inductive Spaced : List (List Char) → List Char → Prop where
  | nil {gap : List Char} (hgap : ∀ c ∈ gap, isBlank c) : Spaced [] gap
  | cons {gap token rest : List Char} {tokens : List (List Char)} (hgap : ∀ c ∈ gap, isBlank c)
    (h : Spaced tokens rest) : Spaced (token :: tokens) (gap ++ (token ++ rest))

section Spacing

variable {gap gap' cs ds : List Char} {tokens others : List (List Char)}

theorem Spaced.blank_append (hgap : ∀ c ∈ gap, isBlank c) (h : Spaced tokens cs) :
    Spaced tokens (gap ++ cs) := by
  cases h with
  | nil hgap' => exact .nil (List.forall_mem_append.mpr ⟨hgap, hgap'⟩)
  | cons hgap' h =>
    rw [← List.append_assoc]
    exact .cons (List.forall_mem_append.mpr ⟨hgap, hgap'⟩) h

theorem Spaced.append (h : Spaced tokens cs) (h' : Spaced others ds) :
    Spaced (tokens ++ others) (cs ++ ds) := by
  induction h with
  | nil hgap => exact h'.blank_append hgap
  | cons hgap _ ih =>
    rw [List.append_assoc, List.append_assoc]
    exact .cons hgap ih

theorem Spaced.append_blank (h : Spaced tokens cs) (hgap : ∀ c ∈ gap, isBlank c) :
    Spaced tokens (cs ++ gap) := by
  simpa using h.append (.nil hgap)

/-- Nothing has to stand in front of a token. -/
theorem Spaced.token (token : List Char) (h : Spaced tokens cs) :
    Spaced (token :: tokens) (token ++ cs) :=
  Spaced.cons (List.forall_mem_nil _) h

theorem spaced_flatten (tokens : List (List Char)) : Spaced tokens tokens.flatten := by
  induction tokens with
  | nil => exact .nil nofun
  | cons token rest ih => exact ih.token token

theorem Spaced.split (h : Spaced (tokens ++ others) cs) :
    ∃ before after, cs = before ++ after ∧ Spaced tokens before ∧ Spaced others after := by
  induction tokens generalizing cs with
  | nil => exact ⟨[], cs, rfl, .nil nofun, h⟩
  | cons token rest ih =>
    rw [List.cons_append] at h
    cases h with
    | cons hgap h =>
      obtain ⟨before, after, rfl, hbefore, hafter⟩ := ih h
      exact ⟨_, after, by simp only [List.append_assoc], .cons hgap hbefore, hafter⟩

/-- In front of a last token stand the others, and blanks behind it. -/
theorem Spaced.split_last {token : List Char} (h : Spaced (tokens ++ [token]) cs) :
    ∃ before gap, cs = before ++ (token ++ gap) ∧ Spaced tokens before ∧
      ∀ c ∈ gap, isBlank c := by
  obtain ⟨before, after, rfl, hbefore, hafter⟩ := h.split
  cases hafter with
  | @cons gap _ _ _ hgap hrest =>
    cases hrest with
    | nil hgap' =>
      exact ⟨before ++ gap, _, by simp only [List.append_assoc], hbefore.append_blank hgap, hgap'⟩

/-- Blanks at both ends are trimmed off a text, up to the first character that is none. -/
theorem trim_append {c : Char} (hgap : ∀ c ∈ gap, isBlank c) (hgap' : ∀ c ∈ gap', isBlank c)
    (hfirst : ∀ c ∈ cs.head?, isBlank c = false) (hlast : cs.getLast? = some c)
    (hc : isBlank c = false) : trim (gap ++ (cs ++ gap')) = cs := by
  obtain ⟨init, rfl⟩ := List.getLast?_eq_some_iff.mp hlast
  have hstart : (init ++ [c] ++ gap').dropWhile isBlank = init ++ [c] ++ gap' := by
    cases init with
    | nil => simp [hc]
    | cons d init => simp [hfirst d rfl]
  rw [trim, List.dropWhile_append_of_pos hgap, hstart, trimEnd, List.reverse_append,
    List.dropWhile_append_of_pos (by simpa using hgap')]
  simp [hc]

/-- What is trimmed off a text is blank. -/
theorem exists_trim (cs : List Char) : ∃ gap gap', cs = gap ++ (trim cs ++ gap') ∧
    (∀ c ∈ gap, isBlank c) ∧ ∀ c ∈ gap', isBlank c := by
  have hblank : ∀ ds : List Char, ∀ c ∈ ds.takeWhile isBlank, isBlank c :=
    fun ds => List.all_eq_true.mp List.all_takeWhile
  refine ⟨cs.takeWhile isBlank, ((cs.dropWhile isBlank).reverse.takeWhile isBlank).reverse, ?_,
    hblank cs, fun c hc => hblank _ c (List.mem_reverse.mp hc)⟩
  rw [trim, trimEnd, ← List.reverse_append, List.takeWhile_append_dropWhile, List.reverse_reverse,
    List.takeWhile_append_dropWhile]

theorem spaced_of_trim (h : Spaced tokens (trim cs)) : Spaced tokens cs := by
  obtain ⟨gap, gap', hsplit, hgap, hgap'⟩ := exists_trim cs
  rw [hsplit]
  exact (h.append_blank hgap').blank_append hgap

/-- Blanks are no part of a name. -/
theorem isBlank_of_isNameContinue {c : Char} (h : isNameContinue c) : isBlank c = false := by
  have hcode : c.toNat = c.val.toNat := rfl
  have hrange : 48 ≤ c.toNat ∧ c.toNat ≤ 122 := by
    simp only [isNameContinue, Char.isAlphanum, Char.isAlpha, Char.isUpper, Char.isLower,
      Char.isDigit, Bool.or_eq_true, Bool.and_eq_true, decide_eq_true_eq, ge_iff_le,
      UInt32.le_iff_toNat_le] at h
    rcases h with rfl | h
    · decide
    · simp at h
      omega
  simp [isBlank]
  omega

theorem isNameContinue_of_isNameChars {cs : List Char} (h : isNameChars cs) :
    cs ≠ [] ∧ ∀ c ∈ cs, isNameContinue c := by
  cases cs with
  | nil => simp [isNameChars] at h
  | cons c rest =>
    obtain ⟨hstart, hrest⟩ := Bool.and_eq_true_iff.mp h
    exact ⟨List.cons_ne_nil c rest, List.forall_mem_cons.mpr
      ⟨isNameContinue_of_isNameStart hstart, List.all_eq_true.mp hrest⟩⟩

end Spacing

end Text

namespace InputType

/-! ## Types that can be written -/

/-- The types that a text can refer to: names that obey the name rule, under lists and marks against
null, of which none stands on another. -/
inductive IsReference : InputType → Prop where
  | name {name : String} (hname : Text.isName name) : IsReference (.reference name)
  | list {item : InputType} (hitem : IsReference item) : IsReference (.list item)
  | nonNull {inner : InputType} (hinner : IsReference inner) (honce : inner.isNonNull = false) :
    IsReference (.nonNull inner)

/-- The tokens of a type in order: its name, the brackets of lists and the marks against null. -/
def tokens : InputType → List (List Char)
  | named type => [type.name.toList]
  | reference name => [name.toList]
  | list item => ['['] :: (item.tokens ++ [[']']])
  | nonNull inner => inner.tokens ++ [['!']]

/-- The text of a type is made of its tokens, with nothing between them. -/
theorem toList_text (type : InputType) : type.text.toList = type.tokens.flatten := by
  induction type using InputType.text.induct with
  | case1 => simp [text, tokens]
  | case2 => simp [text, tokens]
  | case3 item ih => simp [text, tokens, ih]
  | case4 inner ih => simp [text, tokens, ih]

section Reading

variable {type : InputType} {cs : List Char}

/-- The tokens of a type start with a character that is no blank, so blanks in front of them can be
told off. -/
theorem IsReference.exists_gap (h : type.IsReference) (hspaced : Text.Spaced type.tokens cs) :
    ∃ gap c ds, cs = gap ++ c :: ds ∧ (∀ c ∈ gap, Text.isBlank c) ∧ Text.isBlank c = false ∧
      Text.Spaced type.tokens (c :: ds) := by
  obtain ⟨c, token, others, htokens, hc⟩ : ∃ c token others,
      type.tokens = (c :: token) :: others ∧ Text.isBlank c = false := by
    clear hspaced
    induction h with
    | @name name hname =>
      obtain ⟨hne, hchars⟩ := Text.isNameContinue_of_isNameChars hname
      obtain ⟨c, rest, hcons⟩ := List.exists_cons_of_ne_nil hne
      exact ⟨c, rest, [], by rw [tokens, hcons],
        Text.isBlank_of_isNameContinue (hchars c (by simp [hcons]))⟩
    | list => exact ⟨'[', [], _, rfl, by decide⟩
    | nonNull _ _ ih =>
      obtain ⟨c, token, others, htokens, hc⟩ := ih
      exact ⟨c, token, _, by rw [tokens, htokens]; rfl, hc⟩
  rw [htokens] at hspaced ⊢
  cases hspaced with
  | @cons gap _ rest _ hgap h =>
    exact ⟨gap, c, token ++ rest, rfl, hgap, hc, h.token (c :: token)⟩

/-! ## One step of reading -/

theorem ofReference_name {name : String} (htrim : Text.trim cs = name.toList)
    (hname : Text.isName name) : ofReference cs = .ok (.reference name) := by
  have hnot : ∀ c ∈ Text.trim cs, c ≠ '!' ∧ c ≠ '[' := by
    intro c hc
    have hcontinue := (Text.isNameContinue_of_isNameChars hname).2 c (htrim ▸ hc)
    constructor <;> rintro rfl <;> exact absurd hcontinue (by decide)
  rw [Text.isName, ← htrim] at hname
  rw [ofReference.eq_def]
  simp only []
  split
  · rename_i hnil
    simp [hnil, Text.isNameChars] at hname
  · rename_i c rest hcons
    rw [hcons] at hname hnot
    have hmark : (c :: rest).getLast? ≠ some '!' := fun hlast =>
      (hnot '!' (List.mem_of_getLast? hlast)).1 rfl
    rw [if_neg hmark, if_neg (hnot c List.mem_cons_self).2, if_pos hname, ← hcons, htrim,
      String.ofList_toList]

theorem ofReference_list {item : InputType} {ds : List Char}
    (htrim : Text.trim cs = '[' :: (ds ++ [']'])) (hitem : ofReference ds = .ok item) :
    ofReference cs = .ok (.list item) := by
  rw [ofReference.eq_def]
  simp only []
  split
  · rename_i hnil
    simp [hnil] at htrim
  · rename_i c rest hcons
    rw [hcons] at htrim
    cases htrim
    have hlast : ('[' :: (ds ++ [']'])).getLast? = some ']' := by
      rw [← List.cons_append, List.getLast?_concat]
    simp [hlast, hitem, Except.map]

theorem ofReference_nonNull {inner : InputType} {ds : List Char}
    (htrim : Text.trim cs = ds ++ ['!']) (hinner : ofReference ds = .ok inner)
    (honce : inner.isNonNull = false) : ofReference cs = .ok (.nonNull inner) := by
  rw [ofReference.eq_def]
  simp only []
  split
  · rename_i hnil
    simp [hnil] at htrim
  · rename_i c rest hcons
    rw [← hcons, htrim]
    simp [hinner, honce]

/-! ## Reading a spaced row of tokens -/

/-- **A spaced row of tokens is read as its type.** -/
theorem IsReference.ofReference_eq (h : type.IsReference) (hspaced : Text.Spaced type.tokens cs) :
    ofReference cs = .ok type := by
  induction h generalizing cs with
  | @name name hname =>
    obtain ⟨before, gap, rfl, hbefore, hgap⟩ :
        ∃ before gap, cs = before ++ (name.toList ++ gap) ∧ Text.Spaced [] before ∧
          ∀ c ∈ gap, Text.isBlank c := Text.Spaced.split_last hspaced
    cases hbefore with
    | nil hbefore =>
      obtain ⟨hne, hchars⟩ := Text.isNameContinue_of_isNameChars hname
      have hblank : ∀ c ∈ name.toList, Text.isBlank c = false :=
        fun c hc => Text.isBlank_of_isNameContinue (hchars c hc)
      exact ofReference_name (Text.trim_append hbefore hgap
        (fun c hc => hblank c (List.mem_of_mem_head? hc)) (List.getLast?_eq_some_getLast hne)
        (hblank _ (List.getLast_mem hne))) hname
  | @list item _ ih =>
    rw [tokens] at hspaced
    cases hspaced with
    | @cons gap _ _ _ hgap hrest =>
      obtain ⟨inner, gap', rfl, hinner, hgap'⟩ := hrest.split_last
      have hfirst : ∀ c ∈ ('[' :: inner ++ [']']).head?, Text.isBlank c = false := by
        rintro c ⟨⟩
        decide
      have htrim := Text.trim_append hgap hgap' hfirst List.getLast?_concat (by decide)
      exact ofReference_list (by simpa using htrim) (ih hinner)
  | @nonNull inner hinner honce ih =>
    obtain ⟨before, gap', rfl, hbefore, hgap'⟩ := hspaced.split_last
    obtain ⟨gap, c, ds, rfl, hgap, hc, hds⟩ := hinner.exists_gap hbefore
    have hfirst : ∀ d ∈ (c :: ds ++ ['!']).head?, Text.isBlank d = false := by
      rintro d ⟨⟩
      exact hc
    have htrim := Text.trim_append hgap hgap' hfirst List.getLast?_concat (by decide)
    exact ofReference_nonNull (by simpa using htrim) (ih hds) honce

/-- **What is read is a spaced row of tokens.** -/
theorem spaced_of_ofReference (h : ofReference cs = .ok type) :
    type.IsReference ∧ Text.Spaced type.tokens cs := by
  fun_induction ofReference cs generalizing type with
  | case1 => simp at h
  | case2 => simp at h
  | case3 => simp at h
  | case4 cs c rest htrim _ hmark inner hinner honce ih =>
    cases h
    obtain ⟨hreference, hspaced⟩ := ih hinner
    refine ⟨.nonNull hreference (Bool.eq_false_iff.mpr honce), Text.spaced_of_trim ?_⟩
    rw [htrim, ← List.dropLast_append_getLast? '!' hmark]
    exact hspaced.append (Text.spaced_flatten [['!']])
  | case5 cs rest hclose htrim _ _ ih =>
    obtain ⟨item, hitem, rfl⟩ := map_eq_ok.mp h
    obtain ⟨hreference, hspaced⟩ := ih hitem
    refine ⟨.list hreference, Text.spaced_of_trim ?_⟩
    rw [htrim, ← List.dropLast_append_getLast? ']' hclose]
    exact (hspaced.append (Text.spaced_flatten [[']']])).token ['[']
  | case6 => simp at h
  | case7 cs c rest htrim _ _ _ hname =>
    cases h
    refine ⟨.name (by rwa [Text.isName, String.toList_ofList]), Text.spaced_of_trim ?_⟩
    rw [htrim, tokens, String.toList_ofList]
    simpa using Text.spaced_flatten [c :: rest]
  | case8 => simp at h

end Reading

/-! ## The texts of a type -/

theorem ofReference_eq_error {cs : List Char} {error : SchemaError}
    (h : ofReference cs = .error error) : ∃ part, error = .invalidTypeRef part := by
  fun_induction ofReference cs <;> grind [map_eq_error]

theorem parse_eq_error {text : String} {error : SchemaError} (h : parse text = .error error) :
    ∃ part, error = .invalidTypeRef part :=
  ofReference_eq_error h

/-- A type that was read is read again from its own text. -/
theorem parse_text {text : String} {type : InputType} (h : parse text = .ok type) :
    parse type.text = .ok type := by
  refine (spaced_of_ofReference h).1.ofReference_eq ?_
  rw [toList_text]
  exact Text.spaced_flatten type.tokens

/-- **The grammar of type references.** A text is read as a type exactly if the type can be written
and the text is the row of its tokens with blanks before, between and behind them; any other text is
refused as no reference. The text of a type is that row without blanks, so it is read back as the
type exactly if that can be written. -/
theorem parse_eq_ok_iff_spaced (text : String) (type : InputType) :
    (parse text = .ok type ↔ type.IsReference ∧ Text.Spaced type.tokens text.toList) ∧
    ((∃ type : InputType, type.IsReference ∧ Text.Spaced type.tokens text.toList) ∨
      ∃ part, parse text = .error (.invalidTypeRef part)) ∧
    type.text.toList = type.tokens.flatten ∧
    (parse type.text = .ok type ↔ type.IsReference) := by
  have hread : ∀ cs (type : InputType),
      ofReference cs = .ok type ↔ type.IsReference ∧ Text.Spaced type.tokens cs :=
    fun cs type => ⟨spaced_of_ofReference, fun h => h.1.ofReference_eq h.2⟩
  refine ⟨hread _ _, ?_, toList_text type, ?_⟩
  · cases hparse : parse text with
    | ok found => exact .inl ⟨found, (hread _ _).mp hparse⟩
    | error error =>
      obtain ⟨part, rfl⟩ := parse_eq_error hparse
      exact .inr ⟨part, rfl⟩
  · rw [parse, hread, toList_text]
    exact and_iff_left (Text.spaced_flatten type.tokens)

end InputType

end TaggedUnion
