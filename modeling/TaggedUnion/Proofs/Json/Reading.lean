import TaggedUnion.Json.Reader
import TaggedUnion.Proofs.Literal.Layout

/-!
# Reading what is written in JSON

Strings, numbers and keywords are read as they are written, whatever follows them, and blanks in
front of a value say nothing.

* `readString_quotes`: a string is read as what it spells.
* `readNumber_text`: a numeral is read as the number that it stands for.
* `run_eq`, `run_value_append`: how the reader goes on.
* `step_openArray` ... `afterMemberStart_name`: what stands between the parts of a container.
-/

namespace TaggedUnion.Json

/-! ## Strings -/

section Strings

variable {c : Char} {text contents rest : List Char}

theorem readString_plain (hquote : c ≠ '"') (hslash : c ≠ '\\') (hcontrol : 32 ≤ c.toNat)
    (h : readString text = .ok (contents, rest)) :
    readString (c :: text) = .ok (c :: contents, rest) := by
  rw [readString.eq_def]
  simp only [if_neg hquote, if_neg hslash, if_neg (Nat.not_lt.mpr hcontrol), h]
  rfl

theorem readString_slash {cs : List Char} (hescape : readEscape cs = .ok (c, text))
    (h : readString text = .ok (contents, rest)) :
    readString ('\\' :: cs) = .ok (c :: contents, rest) := by
  rw [readString.eq_def]
  simp only [Char.reduceEq, ↓reduceIte]
  split
  · rename_i herror
    cases hescape.symm.trans herror
  · rename_i hok
    cases hescape.symm.trans hok
    rw [h]
    rfl

/-- The escapes of literals are escapes in JSON. -/
theorem readEscape_of_escapes {behind : List Char} (h : Literal.Escapes ('\\' :: behind) c) :
    readEscape (behind ++ rest) = .ok (c, rest) := by
  cases h with
  | letter hletter => simp [readEscape, hletter]
  | @code w x y z i j k l _ hw hx hy hz hc =>
    have hu : Text.simpleEscape? 'u' = none := rfl
    have hread : Text.readHex? (w :: x :: y :: z :: rest) =
        some (((i * 16 + j) * 16 + k) * 16 + l, rest) :=
      Literal.readHex?_eq_some_iff.mpr ⟨w, x, y, z, i, j, k, l, rfl, hw, hx, hy, hz, rfl⟩
    simp [readEscape, hu, readCodeUnit, hread, Literal.charOfCode?_eq_some_iff.mpr hc]

/-- **A string is read as what it spells**, if it holds no bare control character. -/
theorem readString_quotes (h : Literal.Quotes text contents) (hplain : ∀ c ∈ text, 32 ≤ c.toNat) :
    readString (text ++ '"' :: rest) = .ok (contents, rest) := by
  induction h with
  | nil =>
    rw [List.nil_append, readString.eq_def]
    rfl
  | plain hquote hslash _ _ ih =>
    obtain ⟨hc, htext⟩ := List.forall_mem_cons.mp hplain
    exact readString_plain hquote hslash hc (ih htext)
  | @escape sequence c text contents hc _ ih =>
    obtain ⟨-, htext⟩ := List.forall_mem_append.mp hplain
    obtain ⟨behind, rfl⟩ : ∃ behind, sequence = '\\' :: behind := by
      cases hc <;> exact ⟨_, rfl⟩
    rw [List.append_assoc, List.cons_append]
    exact readString_slash (readEscape_of_escapes hc) (ih htext)

end Strings

/-! ## Numbers and keywords -/

section Scalars

variable {n : Numeral} {number : Number} {rest : List Char}

/-- **A numeral is read as the number that it stands for.** -/
theorem readNumber_text (hn : n.IsProper) (hnumber : Number.ofNumeral? n = some number)
    (hrest : Numeral.Follows rest) : readNumber (n.text ++ rest) = .ok (number, rest) := by
  have hfault : numeralFault? n rest = none := by
    cases rest with
    | nil => rfl
    | cons c cs =>
      obtain ⟨hdigit, hpoint, hsmall, hlarge⟩ := hrest c rfl
      simp [numeralFault?, hdigit, hpoint, hsmall, hlarge]
  simp [readNumber, readNumeral, Numeral.scan_text_append hn hrest, hfault, hnumber]

theorem readKeyword_append {letters : List Char} {value : Json} :
    readKeyword letters value (letters ++ rest) = .ok (value, rest) := by
  induction letters with
  | nil => rfl
  | cons letter letters ih => simp [readKeyword, ih]

end Scalars

/-! ## Steps -/

/-- The text holds nothing but blanks. -/
def Blank (gap : List Char) : Prop := ∀ c ∈ gap, isBlank c

section Steps

variable {outside : Nat} {stack stack' : List Frame} {task task' : Task} {cs rest gap : List Char}
  {fault : Fault} {value : Json} {c : Char}

theorem run_eq : run outside stack task cs =
    match step outside stack task cs with
    | .error fault => .error fault
    | .ok (.done value rest) => .ok (value, rest)
    | .ok (.next stack task rest) => run outside stack task rest := by
  rw [run.eq_def]
  split <;> simp_all

theorem run_next (h : step outside stack task cs = .ok (.next stack' task' rest)) :
    run outside stack task cs = run outside stack' task' rest := by
  rw [run_eq, h]

theorem run_error (h : step outside stack task cs = .error fault) :
    run outside stack task cs = .error fault := by
  rw [run_eq, h]

theorem run_done : run outside [] (.after value) rest = .ok (value, rest) := by
  rw [run_eq]
  rfl

/-- Blanks are skipped up to the first character that is none. -/
theorem skipBlanks_append (hgap : Blank gap) (hc : isBlank c = false) :
    skipBlanks (gap ++ c :: rest) = c :: rest :=
  (span_append hgap (by rintro d ⟨⟩; exact hc)).2

@[simp] theorem skipBlanks_cons (hc : isBlank c = false) : skipBlanks (c :: rest) = c :: rest := by
  simp [skipBlanks, hc]

/-- Blanks in front of a value say nothing. -/
theorem run_value_append (hgap : Blank gap) (hc : isBlank c = false) :
    run outside stack .value (gap ++ c :: rest) = run outside stack .value (c :: rest) := by
  have hstep : step outside stack .value (gap ++ c :: rest) =
      step outside stack .value (c :: rest) := by
    simp only [step, stepValue, skipBlanks_append hgap hc, skipBlanks_cons hc]
  rw [run_eq, run_eq, hstep]

end Steps

/-! ## Brackets -/

section Brackets

variable {outside : Nat} {stack outer : List Frame} {items : List Json}
  {members : List (String × Json)} {name : String} {value : Json} {gap gap' rest : List Char}
  {c : Char}

theorem run_full (hbracket : c = '[' ∨ c = '\x7b') (hblank : isBlank c = false)
    (hroom : ¬outside + stack.length + 1 < depthLimit) :
    ∃ fault, run outside stack .value (c :: rest) = .error fault ∧ fault.cause = .tooDeep := by
  have hstep : step outside stack .value (c :: rest) =
      .error ((Fault.on .tooDeep (c :: rest)).under (framePath stack)) := by
    simp only [step, stepValue, skipBlanks_cons hblank, if_pos hbracket,
      if_pos (Nat.not_lt.mp hroom)]
  exact ⟨_, run_error hstep, rfl⟩

/-- What an opening bracket of an array does where there is room. -/
theorem step_openArray (hroom : outside + stack.length + 1 < depthLimit) :
    step outside stack .value ('[' :: rest) =
      afterItemStart stack [] (readItemStart true rest) := by
  have hblank : isBlank '[' = false := rfl
  simp [step, stepValue, skipBlanks_cons hblank, Nat.not_le.mpr hroom]

/-- What an opening bracket of an object does where there is room. -/
theorem step_openObject (hroom : outside + stack.length + 1 < depthLimit) :
    step outside stack .value ('\x7b' :: rest) =
      afterMemberStart stack [] (readMemberStart true rest) := by
  have hblank : isBlank '\x7b' = false := rfl
  simp [step, stepValue, skipBlanks_cons hblank, Nat.not_le.mpr hroom]

theorem readItemStart_close {first : Bool} (hgap : Blank gap) :
    readItemStart first (gap ++ ']' :: rest) = .ok (.close rest) := by
  have hskip : skipBlanks (gap ++ ']' :: rest) = ']' :: rest := skipBlanks_append hgap rfl
  simp [readItemStart, hskip]

theorem step_emptyArray (hroom : outside + stack.length + 1 < depthLimit) (hgap : Blank gap) :
    step outside stack .value ('[' :: (gap ++ ']' :: rest)) =
      .ok (.next stack (.after (.array [])) rest) := by
  rw [step_openArray hroom, readItemStart_close hgap]
  rfl

theorem readItemStart_first (hgap : Blank gap) (hblank : isBlank c = false) (hclose : c ≠ ']') :
    readItemStart true (gap ++ c :: rest) = .ok (.item (c :: rest)) := by
  simp [readItemStart, skipBlanks_append hgap hblank, hclose]

theorem readItemStart_next (hgap : Blank gap) (hgap' : Blank gap') (hblank : isBlank c = false)
    (hclose : c ≠ ']') :
    readItemStart false (gap ++ ',' :: (gap' ++ c :: rest)) = .ok (.item (c :: rest)) := by
  have hskip : skipBlanks (gap ++ ',' :: (gap' ++ c :: rest)) = ',' :: (gap' ++ c :: rest) :=
    skipBlanks_append hgap rfl
  simp [readItemStart, hskip, skipBlanks_append hgap' hblank, hclose]

theorem readMemberStart_close {first : Bool} (hgap : Blank gap) :
    readMemberStart first (gap ++ '\x7d' :: rest) = .ok (.close rest) := by
  have hskip : skipBlanks (gap ++ '\x7d' :: rest) = '\x7d' :: rest := skipBlanks_append hgap rfl
  simp [readMemberStart, hskip]

theorem step_emptyObject (hroom : outside + stack.length + 1 < depthLimit) (hgap : Blank gap) :
    step outside stack .value ('\x7b' :: (gap ++ '\x7d' :: rest)) =
      .ok (.next stack (.after (.object [])) rest) := by
  rw [step_openObject hroom, readMemberStart_close hgap]
  rfl

theorem readMemberStart_first (hgap : Blank gap) :
    readMemberStart true (gap ++ '"' :: rest) = readName rest := by
  have hskip : skipBlanks (gap ++ '"' :: rest) = '"' :: rest := skipBlanks_append hgap rfl
  simp [readMemberStart, hskip]

theorem readMemberStart_next (hgap : Blank gap) (hgap' : Blank gap') :
    readMemberStart false (gap ++ ',' :: (gap' ++ '"' :: rest)) = readName rest := by
  have hskip : skipBlanks (gap ++ ',' :: (gap' ++ '"' :: rest)) = ',' :: (gap' ++ '"' :: rest) :=
    skipBlanks_append hgap rfl
  have hskip' : skipBlanks (gap' ++ '"' :: rest) = '"' :: rest := skipBlanks_append hgap' rfl
  simp [readMemberStart, hskip, hskip']

/-- A name with the colon behind it. -/
theorem afterMemberStart_name {text : List Char} (hquotes : Literal.Quotes text name.toList)
    (hplain : ∀ c ∈ text, 32 ≤ c.toNat) (hgap : Blank gap) :
    afterMemberStart outer members (readName (text ++ '"' :: (gap ++ ':' :: rest))) =
      .ok (.next (.object members name :: outer) .value rest) := by
  have hskip : skipBlanks (gap ++ ':' :: rest) = ':' :: rest := skipBlanks_append hgap rfl
  simp [readName, readString_quotes hquotes hplain, afterMemberStart, readColon, hskip]

end Brackets

end TaggedUnion.Json
