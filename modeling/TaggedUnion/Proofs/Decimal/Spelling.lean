import TaggedUnion.Decimal.Numeral

/-!
# How numerals are spelled

The numerals that can be written, and what scanning takes off a text: the longest of them.

* `Exponent.IsProper`, `Numeral.IsProper`: the numerals whose parts are spelled as the written form
  asks.
* `span_append`: a run of characters stops where the text behind it starts.
* `Numeral.Ends`: the texts that do not go on with a numeral.
* `Numeral.scan_eq_some_iff`: the numeral that is scanned is a proper one, and the text behind it
  does not go on with it.
-/

namespace TaggedUnion

/-- A run of characters is taken off a text that goes on with another one. -/
theorem span_append {p : Char → Bool} {part rest : List Char} (hpart : ∀ c ∈ part, p c)
    (hrest : ∀ c ∈ rest.head?, p c = false) :
    (part ++ rest).takeWhile p = part ∧ (part ++ rest).dropWhile p = rest := by
  rw [List.takeWhile_append_of_pos hpart, List.dropWhile_append_of_pos hpart]
  cases rest with
  | nil => simp
  | cons c rest => simp [hrest c rfl]

theorem mem_takeWhile {p : Char → Bool} {cs : List Char} : ∀ c ∈ cs.takeWhile p, p c :=
  List.all_eq_true.mp List.all_takeWhile

/-- What follows a run of characters is none of them. -/
theorem head?_dropWhile {p : Char → Bool} {cs : List Char} :
    ∀ c ∈ (cs.dropWhile p).head?, p c = false := by
  intro c hc
  have := List.head?_dropWhile_not p cs
  rw [Option.mem_def] at hc
  simpa [hc] using this

/-! ## Exponents -/

namespace Exponent

/-- The exponents that can be written: the letter, possibly a sign, and at least one digit. -/
structure IsProper (e : Exponent) : Prop where
  mark : e.mark = 'e' ∨ e.mark = 'E'
  sign : ∀ c ∈ e.sign, c = '+' ∨ c = '-'
  nonempty : e.digits ≠ []
  digits : ∀ c ∈ e.digits, c.isDigit

theorem scanDigits_append {mark : Char} {sign : Option Char} {digits rest : List Char}
    (hnonempty : digits ≠ []) (hdigits : ∀ c ∈ digits, c.isDigit)
    (hrest : ∀ c ∈ rest.head?, c.isDigit = false) :
    scanDigits mark sign (digits ++ rest) = some (⟨mark, sign, digits⟩, rest) := by
  obtain ⟨htake, hdrop⟩ := span_append hdigits hrest
  simp [scanDigits, htake, hdrop, hnonempty]

theorem scan_text_append {e : Exponent} {rest : List Char} (he : e.IsProper)
    (hrest : ∀ c ∈ rest.head?, c.isDigit = false) : scan (e.text ++ rest) = some (e, rest) := by
  obtain ⟨mark, sign, digits⟩ := e
  obtain ⟨hmark, hsign, hnonempty, hdigits⟩ := he
  have hscan : ∀ {sign},
      scanDigits mark sign (digits ++ rest) = some (⟨mark, sign, digits⟩, rest) :=
    scanDigits_append hnonempty hdigits hrest
  cases sign with
  | some sign =>
    have hsign : sign = '+' ∨ sign = '-' := hsign sign rfl
    simp only [] at hmark
    simp [text, scan, hmark, hsign, hscan]
  | none =>
    cases digits with
    | nil => exact absurd rfl hnonempty
    | cons d digits =>
      have hd : d.isDigit := hdigits d List.mem_cons_self
      have hnot : ¬(d = '+' ∨ d = '-') := by
        rintro (rfl | rfl) <;> exact absurd hd (by decide)
      simp only [List.cons_append] at hscan
      simp only [] at hmark
      simp [text, scan, hmark, hnot, hscan]

variable {cs rest : List Char} {e : Exponent}

theorem of_scanDigits {mark : Char} {sign : Option Char} (hmark : mark = 'e' ∨ mark = 'E')
    (hsign : ∀ c ∈ sign, c = '+' ∨ c = '-') (h : scanDigits mark sign cs = some (e, rest)) :
    e.IsProper ∧ ∀ c ∈ rest.head?, c.isDigit = false := by
  simp only [scanDigits, Option.ite_none_left_eq_some, Option.some.injEq, Prod.mk.injEq] at h
  obtain ⟨hne, rfl, rfl⟩ := h
  exact ⟨⟨hmark, hsign, by simpa using hne, mem_takeWhile⟩, head?_dropWhile⟩

/-- **The longest exponent is scanned.** It is one that can be written, and no digit follows it. -/
theorem scan_eq_some_iff : scan cs = some (e, rest) ↔
    e.IsProper ∧ e.text ++ rest = cs ∧ ∀ c ∈ rest.head?, c.isDigit = false := by
  constructor
  · intro h
    have htext := Numeral.text_append_of_scanExponent h
    unfold scan at h
    split at h
    · simp at h
    · rename_i mark cs
      split at h
      · rename_i hmark
        split at h
        · simp at h
        · rename_i sign rest
          split at h
          · rename_i hsign
            obtain ⟨hproper, hrest⟩ := of_scanDigits hmark (by simpa using hsign) h
            exact ⟨hproper, htext, hrest⟩
          · obtain ⟨hproper, hrest⟩ := of_scanDigits hmark (by simp) h
            exact ⟨hproper, htext, hrest⟩
      · simp at h
  · rintro ⟨hproper, rfl, hrest⟩
    exact scan_text_append hproper hrest

theorem scan_eq_none {cs : List Char} (h : ∀ c ∈ cs.head?, c ≠ 'e' ∧ c ≠ 'E') : scan cs = none := by
  cases cs with
  | nil => rfl
  | cons c cs =>
    have hc := h c rfl
    simp [scan, hc]

/-- What does not start with the letter of an exponent starts none, and neither does the letter with
something behind it that is no digit and no sign. -/
theorem scan_eq_none_of {c : Char} (h : (c = 'e' ∨ c = 'E') →
    ∀ d ∈ rest.head?, d.isDigit = false ∧ d ≠ '+' ∧ d ≠ '-') : scan (c :: rest) = none := by
  by_cases hmark : c = 'e' ∨ c = 'E'
  · cases rest with
    | nil => simp [scan]
    | cons d rest =>
      obtain ⟨hdigit, hplus, hminus⟩ := h hmark d rfl
      simp [scan, scanDigits, hdigit, hplus, hminus]
  · exact scan_eq_none fun d hd => by
      cases hd
      simpa using hmark

end Exponent

/-! ## Numerals -/

namespace Numeral

/-- The numerals that can be written. -/
structure IsProper (n : Numeral) : Prop where
  /-- A single zero, or digits of which the first is not zero. -/
  whole : n.whole = ['0'] ∨
    ∃ c cs, n.whole = c :: cs ∧ c ≠ '0' ∧ ∀ d ∈ c :: cs, d.isDigit
  fraction : ∀ c ∈ n.fraction, c.isDigit
  exponent : ∀ e ∈ n.exponent, e.IsProper

/-- The characters from the point on. -/
def fractionText (fraction : List Char) : List Char :=
  if fraction.isEmpty then [] else '.' :: fraction

/-- The characters from the letter of the exponent on. -/
def exponentText (exponent : Option Exponent) : List Char := (exponent.map Exponent.text).getD []

/-- What follows a numeral without being a part of it. -/
def Follows (rest : List Char) : Prop :=
  ∀ c ∈ rest.head?, c.isDigit = false ∧ c ≠ '.' ∧ c ≠ 'e' ∧ c ≠ 'E'

/-- The text does not go on with the numeral: with a digit, unless the numeral is a zero, with a
point and a digit, or with an exponent. -/
structure Ends (n : Numeral) (rest : List Char) : Prop where
  digit : ∀ c ∈ rest.head?, c.isDigit → n.isInteger ∧ n.whole = ['0']
  point : n.isInteger → ∀ c more, rest = '.' :: c :: more → c.isDigit = false
  exponent : n.exponent = none → Exponent.scan rest = none

section Parts

variable {cs whole fraction rest : List Char}

theorem scanWhole_eq_some_iff : scanWhole cs = some (whole, rest) ↔
    (whole = ['0'] ∨ ∃ c cs, whole = c :: cs ∧ c ≠ '0' ∧ ∀ d ∈ c :: cs, d.isDigit) ∧
      whole ++ rest = cs ∧ ∀ c ∈ rest.head?, c.isDigit → whole = ['0'] := by
  constructor
  · intro h
    have htext := (text_append_of_scanWhole h).1
    unfold scanWhole at h
    split at h
    · simp at h
    · rename_i c cs
      split at h
      · cases h
        exact ⟨.inl rfl, htext, fun _ _ _ => rfl⟩
      · rename_i hzero
        simp only [Option.ite_none_right_eq_some, Option.some.injEq, Prod.mk.injEq] at h
        obtain ⟨hdigit, rfl, rfl⟩ := h
        refine ⟨.inr ⟨c, _, rfl, hzero, ?_⟩, htext, fun d hd hdigit => ?_⟩
        · exact List.forall_mem_cons.mpr ⟨hdigit, mem_takeWhile⟩
        · exact absurd hdigit (by simp [head?_dropWhile d hd])
  · rintro ⟨rfl | ⟨c, cs, rfl, hzero, hdigits⟩, rfl, hrest⟩
    · rfl
    · obtain ⟨hc, hcs⟩ := List.forall_mem_cons.mp hdigits
      have hbehind : ∀ d ∈ rest.head?, d.isDigit = false := fun d hd =>
        Bool.eq_false_iff.mpr fun hdigit => hzero (List.cons.inj (hrest d hd hdigit)).1
      obtain ⟨htake, hdrop⟩ := span_append hcs hbehind
      simp [scanWhole, hzero, hc, htake, hdrop]

theorem scanFraction_eq_iff : scanFraction cs = (fraction, rest) ↔
    (∀ c ∈ fraction, c.isDigit) ∧ fractionText fraction ++ rest = cs ∧
      (fraction = [] → ∀ c more, rest = '.' :: c :: more → c.isDigit = false) ∧
        (fraction ≠ [] → ∀ c ∈ rest.head?, c.isDigit = false) := by
  constructor
  · intro h
    have htext : fractionText (scanFraction cs).1 ++ (scanFraction cs).2 = cs :=
      scanFraction_append cs
    rw [h] at htext
    unfold scanFraction at h
    split at h
    · cases h
      exact ⟨nofun, htext, nofun, nofun⟩
    · simp only [] at h
      split at h
      · rename_i hpoint
        cases h
        exact ⟨mem_takeWhile, htext,
          fun hnil => absurd hnil (by simpa using hpoint.2), fun _ => head?_dropWhile⟩
      · rename_i hpoint
        cases h
        refine ⟨nofun, htext, ?_, fun hne => absurd rfl hne⟩
        rintro - c more ⟨rfl, rfl⟩
        exact Bool.eq_false_iff.mpr fun hdigit => hpoint (by simp [hdigit])
  · rintro ⟨hdigits, rfl, hnone, hsome⟩
    cases fraction with
    | nil =>
      cases rest with
      | nil => rfl
      | cons c rest =>
        have hpoint : ¬(c = '.' ∧ !(rest.takeWhile Char.isDigit).isEmpty) := by
          rintro ⟨rfl, hrest⟩
          cases rest with
          | nil => simp at hrest
          | cons d more => simp [hnone rfl d more rfl] at hrest
        simp only [fractionText, scanFraction]
        rw [List.isEmpty_nil, if_pos rfl, List.nil_append]
        simp only []
        rw [if_neg hpoint]
    | cons d fraction =>
      obtain ⟨htake, hdrop⟩ := span_append hdigits (hsome (by simp))
      simp only [fractionText, List.isEmpty_cons, Bool.false_eq_true, ↓reduceIte, List.cons_append,
        scanFraction]
      rw [← List.cons_append, htake, hdrop]
      simp

end Parts

section Whole

variable {cs rest : List Char} {n : Numeral}

theorem ends_of_scanUnsigned {negative : Bool} (h : scanUnsigned negative cs = some (n, rest)) :
    n.IsProper ∧ n.Ends rest := by
  obtain ⟨⟨whole, afterWhole⟩, hwhole, h⟩ := Option.map_eq_some_iff.mp h
  obtain ⟨hproper, -, hzero⟩ := scanWhole_eq_some_iff.mp hwhole
  rcases hfraction : scanFraction afterWhole with ⟨fraction, afterFraction⟩
  obtain ⟨hdigits, hafter, hnone, hsome⟩ := scanFraction_eq_iff.mp hfraction
  simp only [hfraction] at h
  split at h
  · rename_i e rest hexponent
    cases h
    obtain ⟨he, -, hrest⟩ := Exponent.scan_eq_some_iff.mp hexponent
    refine ⟨⟨hproper, hdigits, by rintro _ ⟨⟩; exact he⟩, fun c hc hdigit => ?_, ?_, nofun⟩
    · exact absurd hdigit (by simp [hrest c hc])
    · simp [isInteger]
  · rename_i hexponent
    cases h
    refine ⟨⟨hproper, hdigits, nofun⟩, fun c hc hdigit => ?_, fun hint => ?_, fun _ => hexponent⟩
    · by_cases hnil : fraction = []
      · subst hnil
        exact ⟨rfl, hzero c (hafter ▸ hc) hdigit⟩
      · exact absurd hdigit (by simp [hsome hnil c hc])
    · exact hnone (by simpa [isInteger] using hint)

theorem scanUnsigned_of_ends {negative : Bool} {whole fraction : List Char}
    {exponent : Option Exponent} (hn : IsProper ⟨negative, whole, fraction, exponent⟩)
    (hrest : Ends ⟨negative, whole, fraction, exponent⟩ rest) :
    scanUnsigned negative (whole ++ (fractionText fraction ++ (exponentText exponent ++ rest))) =
      some (⟨negative, whole, fraction, exponent⟩, rest) := by
  obtain ⟨hwhole, hfraction, hexponent⟩ := hn
  obtain ⟨hdigit, hpoint, hnone⟩ := hrest
  simp only [isInteger, Bool.and_eq_true, List.isEmpty_iff, Option.isNone_iff_eq_none] at *
  have hmark : ∀ e ∈ exponent, ∀ c ∈ (exponentText exponent ++ rest).head?,
      c.isDigit = false ∧ c ≠ '.' := by
    rintro e ⟨⟩ c ⟨⟩
    rcases (hexponent e rfl).mark with hmark | hmark <;> rw [hmark] <;> decide
  have hscanFraction : scanFraction (fractionText fraction ++ (exponentText exponent ++ rest)) =
      (fraction, exponentText exponent ++ rest) := by
    refine scanFraction_eq_iff.mpr ⟨hfraction, rfl, ?_, ?_⟩
    · rintro rfl c more hmore
      cases exponent with
      | none => exact hpoint ⟨rfl, rfl⟩ c more hmore
      | some e => exact absurd rfl (hmark e rfl '.' (by rw [hmore]; rfl)).2
    · intro hne c hc
      cases exponent with
      | none => exact Bool.eq_false_iff.mpr fun hc' => hne (hdigit c hc hc').1.1
      | some e => exact (hmark e rfl c hc).1
  have hscanWhole : scanWhole
      (whole ++ (fractionText fraction ++ (exponentText exponent ++ rest))) =
        some (whole, fractionText fraction ++ (exponentText exponent ++ rest)) := by
    refine scanWhole_eq_some_iff.mpr ⟨hwhole, rfl, fun c hc hc' => ?_⟩
    cases fraction with
    | nil =>
      cases exponent with
      | none => exact (hdigit c hc hc').2
      | some e => exact absurd hc' (by simp [(hmark e rfl c hc).1])
    | cons d fraction =>
      cases hc
      exact absurd hc' (by decide)
  simp only [scanUnsigned, hscanWhole, Option.map_some, hscanFraction]
  cases exponent with
  | none => simp [exponentText, hnone]
  | some e =>
    have hscan : Exponent.scan (e.text ++ rest) = some (e, rest) :=
      Exponent.scan_text_append (hexponent e rfl) fun c hc =>
        Bool.eq_false_iff.mpr fun hc' => by simpa using (hdigit c hc hc').1.2
    simp [exponentText, hscan]

/-- **The longest numeral is scanned.** It is one that can be written, and the text does not go on
with it. -/
theorem scan_eq_some_iff : scan cs = some (n, rest) ↔
    n.IsProper ∧ n.text ++ rest = cs ∧ n.Ends rest := by
  constructor
  · intro h
    have htext := (text_append_of_scan h).1
    have hends : n.IsProper ∧ n.Ends rest := by
      unfold scan at h
      split at h
      · simp at h
      · split at h
        · exact ends_of_scanUnsigned h
        · exact ends_of_scanUnsigned h
    exact ⟨hends.1, htext, hends.2⟩
  · rintro ⟨hn, rfl, hrest⟩
    obtain ⟨negative, whole, fraction, exponent⟩ := n
    have hunsigned := scanUnsigned_of_ends hn hrest
    have htext : text ⟨negative, whole, fraction, exponent⟩ ++ rest =
        (if negative then ['-'] else []) ++
          (whole ++ (fractionText fraction ++ (exponentText exponent ++ rest))) := by
      simp [text, fractionText, exponentText]
    rw [htext]
    cases negative with
    | true => simpa [scan] using hunsigned
    | false =>
      -- The first character is a digit, so it is not taken for a sign.
      obtain ⟨c, cs, rfl, hc⟩ : ∃ c cs, whole = c :: cs ∧ c ≠ '-' := by
        rcases hn.whole with rfl | ⟨c, cs, rfl, -, hdigits⟩
        · exact ⟨'0', [], rfl, by decide⟩
        · refine ⟨c, cs, rfl, ?_⟩
          rintro rfl
          exact absurd (hdigits '-' List.mem_cons_self) (by decide)
      simpa [scan, hc] using hunsigned

/-- What cannot be a part of a numeral goes on with none. -/
theorem Follows.ends (h : Follows rest) : n.Ends rest where
  digit c hc hdigit := absurd hdigit (by simp [(h c hc).1])
  point _ c more hrest := by
    subst hrest
    exact absurd rfl (h '.' rfl).2.1
  exponent _ := Exponent.scan_eq_none fun c hc => (h c hc).2.2

/-- **A numeral is scanned as it is written.** -/
theorem scan_text_append (hn : n.IsProper) (hrest : Follows rest) :
    scan (n.text ++ rest) = some (n, rest) :=
  scan_eq_some_iff.mpr ⟨hn, rfl, hrest.ends⟩

end Whole

/-- A numeral starts with its sign or a digit. -/
theorem IsProper.text_eq_cons {n : Numeral} (hn : n.IsProper) :
    ∃ c cs, n.text = c :: cs ∧ (c = '-' ∨ c.isDigit) := by
  cases hnegative : n.negative with
  | true => exact ⟨'-', _, by simp [text, hnegative]; rfl, .inl rfl⟩
  | false =>
    rcases hn.whole with hwhole | ⟨c, cs, hwhole, -, hdigits⟩
    · exact ⟨'0', _, by simp [text, hnegative, hwhole]; rfl, .inr rfl⟩
    · exact ⟨c, _, by simp [text, hnegative, hwhole]; rfl, .inr (hdigits c List.mem_cons_self)⟩

end Numeral

end TaggedUnion
