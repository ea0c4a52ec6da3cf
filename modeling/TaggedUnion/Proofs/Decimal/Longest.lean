import TaggedUnion.Proofs.Decimal.Spelling

/-!
# The longest numeral

Of the numerals that a text starts with, the one that is scanned has the most characters.

* `Numeral.ends_of_longest`: a numeral that is not the start of a longer one ends.
* `Numeral.exists_scan_of_isProper`: what is scanned is at least as long as any numeral there.
-/

namespace TaggedUnion.Numeral

variable {n : Numeral} {rest : List Char}

/-- The whole part of a numeral may go on with a digit, unless it is a zero. -/
theorem isWhole_append {whole : List Char} {c : Char} (hc : c.isDigit) (hzero : whole ≠ ['0'])
    (h : whole = ['0'] ∨ ∃ d ds, whole = d :: ds ∧ d ≠ '0' ∧ ∀ e ∈ d :: ds, e.isDigit) :
    ∃ d ds, whole ++ [c] = d :: ds ∧ d ≠ '0' ∧ ∀ e ∈ d :: ds, e.isDigit := by
  obtain ⟨d, ds, rfl, hd, hdigits⟩ := h.resolve_left hzero
  refine ⟨d, ds ++ [c], rfl, hd, ?_⟩
  rw [← List.cons_append]
  exact List.forall_mem_append.mpr ⟨hdigits, by simpa using hc⟩

/-- A digit goes on with the last part of a numeral. -/
theorem exists_longer_digit {c : Char} (hn : n.IsProper) (hc : c.isDigit)
    (hzero : n.isInteger → n.whole ≠ ['0']) :
    ∃ m : Numeral, m.IsProper ∧ m.text = n.text ++ [c] := by
  obtain ⟨negative, whole, fraction, exponent⟩ := n
  obtain ⟨hwhole, hfraction, hexponent⟩ := hn
  cases exponent with
  | some e =>
    obtain ⟨hmark, hsign, hnonempty, hdigits⟩ := hexponent e rfl
    refine ⟨⟨negative, whole, fraction, some { e with digits := e.digits ++ [c] }⟩,
      ⟨hwhole, hfraction, ?_⟩, by simp [text, Exponent.text]⟩
    rintro _ ⟨⟩
    exact ⟨hmark, hsign, by simp, List.forall_mem_append.mpr ⟨hdigits, by simpa using hc⟩⟩
  | none =>
    cases fraction with
    | nil =>
      exact ⟨⟨negative, whole ++ [c], [], none⟩,
        ⟨.inr (isWhole_append hc (hzero rfl) hwhole), by simp, by simp⟩, by simp [text]⟩
    | cons d fraction =>
      refine ⟨⟨negative, whole, d :: fraction ++ [c], none⟩, ⟨hwhole, ?_, by simp⟩, by simp [text]⟩
      exact List.forall_mem_append.mpr ⟨hfraction, by simpa using hc⟩

/-- A point and a digit go on with an integer. -/
theorem exists_longer_point {c : Char} (hn : n.IsProper) (hint : n.isInteger) (hc : c.isDigit) :
    ∃ m : Numeral, m.IsProper ∧ m.text = n.text ++ ['.', c] := by
  obtain ⟨negative, whole, fraction, exponent⟩ := n
  simp only [isInteger, Bool.and_eq_true, List.isEmpty_iff, Option.isNone_iff_eq_none] at hint
  obtain ⟨rfl, rfl⟩ := hint
  exact ⟨⟨negative, whole, [c], none⟩, ⟨hn.whole, by simpa using hc, by simp⟩, by simp [text]⟩

/-- An exponent goes on with a numeral that has none. -/
theorem exists_longer_exponent {e : Exponent} (hn : n.IsProper) (hnone : n.exponent = none)
    (he : e.IsProper) : ∃ m : Numeral, m.IsProper ∧ m.text = n.text ++ e.text :=
  ⟨{ n with exponent := some e }, ⟨hn.whole, hn.fraction, by rintro _ ⟨⟩; exact he⟩,
    by simp [text, hnone]⟩

/-- **A numeral that is not the start of a longer one ends.** -/
theorem ends_of_longest (hn : n.IsProper) (h : ∀ (m : Numeral) (more after : List Char),
    m.IsProper → m.text = n.text ++ more → more ++ after = rest → more = []) : n.Ends rest := by
  refine ⟨fun c hc hdigit => ?_, ?_, fun hexponent => ?_⟩
  · obtain ⟨after, rfl⟩ := List.head?_eq_some_iff.mp hc
    refine Classical.byContradiction fun hzero => ?_
    obtain ⟨m, hm, htext⟩ :=
      exists_longer_digit hn hdigit fun hint hwhole => hzero ⟨hint, hwhole⟩
    exact List.cons_ne_nil _ _ (h m [c] after hm htext rfl)
  · rintro hint c after rfl
    refine Bool.eq_false_iff.mpr fun hdigit => ?_
    obtain ⟨m, hm, htext⟩ := exists_longer_point hn hint hdigit
    exact List.cons_ne_nil _ _ (h m ['.', c] after hm htext rfl)
  · cases hscan : Exponent.scan rest with
    | none => rfl
    | some read =>
      obtain ⟨e, after⟩ := read
      obtain ⟨he, hrest, -⟩ := Exponent.scan_eq_some_iff.mp hscan
      obtain ⟨m, hm, htext⟩ := exists_longer_exponent hn hexponent he
      exact absurd (h m e.text after hm htext hrest) (List.cons_ne_nil _ _)

/-- **The longest numeral is scanned.** In a text that starts with a numeral, a numeral is scanned
that has at least its characters. -/
theorem exists_scan_of_isProper {n : Numeral} (hn : n.IsProper) (rest : List Char) :
    ∃ m after, scan (n.text ++ rest) = some (m, after) ∧ n.text.length ≤ m.text.length := by
  by_cases hlonger : ∃ (longer : Numeral) (more after : List Char), longer.IsProper ∧
      longer.text = n.text ++ more ∧ more ++ after = rest ∧ more ≠ []
  · obtain ⟨longer, more, after, hproper, htext, hrest, hmore⟩ := hlonger
    have hlt : after.length < rest.length := by
      have := List.length_pos_iff.mpr hmore
      rw [← hrest, List.length_append]
      omega
    obtain ⟨m, behind, hscan, hle⟩ := exists_scan_of_isProper hproper after
    rw [htext, List.append_assoc, hrest] at hscan
    rw [htext, List.length_append] at hle
    exact ⟨m, behind, hscan, by omega⟩
  · have hends : n.Ends rest := ends_of_longest hn fun m more after hm htext hrest =>
      Classical.byContradiction fun hmore => hlonger ⟨m, more, after, hm, htext, hrest, hmore⟩
    exact ⟨n, rest, scan_eq_some_iff.mpr ⟨hn, rfl, hends⟩, Nat.le_refl _⟩
termination_by rest.length

end TaggedUnion.Numeral
