import TaggedUnion.Json.Number
import TaggedUnion.Proofs.Decimal.Rounding
import TaggedUnion.Proofs.Decimal.Spelling

/-!
# The leading digits of a number

A number in JSON text is cut off after the digits that fit a word. Digits behind the point are tried
once more when the whole part has been cut off, as if nothing had been left out between them.

* `Numeral.natOf_append`, `Numeral.natOf_lt`: what digits denote.
* `Leading.foldl_addWhole`, `Leading.foldl_addFraction`: which digits are taken.
* `Leading.near_ofNumeral`: what is cut off is less than one part in `2 ^ 56`.
-/

namespace TaggedUnion

namespace Numeral

/-! ## What digits denote -/

section Digits

variable {front back digits : List Char} {c : Char}

theorem natOf_append : natOf (front ++ back) = natOf front * 10 ^ back.length + natOf back := by
  have happend : Nat.ofDigitChars 10 (front ++ back) 0 =
      10 ^ back.length * Nat.ofDigitChars 10 front 0 + Nat.ofDigitChars 10 back 0 := by
    rw [Nat.ofDigitChars_append, Nat.ofDigitChars_eq_ofDigitChars_zero]
  rw [mul_comm]
  exact happend

theorem natOf_concat : natOf (front ++ [c]) = 10 * natOf front + digitValue c := by
  rw [natOf, List.foldl_append]
  rfl

theorem digitValue_le (h : c.isDigit) : digitValue c ≤ 9 := by
  have hcode : 48 ≤ c.toNat ∧ c.toNat ≤ 57 := by
    simpa [Char.isDigit, UInt32.le_iff_toNat_le] using h
  have hzero : '0'.toNat = 48 := rfl
  unfold digitValue
  omega

theorem natOf_lt (h : ∀ c ∈ digits, c.isDigit) : natOf digits < 10 ^ digits.length := by
  induction digits using List.reverseRecOn with
  | nil => decide
  | append_singleton digits c ih =>
    obtain ⟨hdigits, hc⟩ := List.forall_mem_append.mp h
    have hvalue := digitValue_le (hc c List.mem_cons_self)
    have hfront := ih hdigits
    rw [natOf_concat, List.length_append, List.length_singleton, pow_succ]
    omega

/-- The digits of a numeral, on both sides of the point. -/
theorem IsProper.isDigit {n : Numeral} (hn : n.IsProper) :
    ∀ c ∈ n.whole ++ n.fraction, c.isDigit := by
  refine List.forall_mem_append.mpr ⟨?_, hn.fraction⟩
  rcases hn.whole with hwhole | ⟨c, cs, hwhole, -, hdigits⟩
  · rw [hwhole]
    exact List.forall_mem_singleton.mpr rfl
  · rwa [hwhole]

end Digits

end Numeral

namespace Number.Leading

/-! ## Which digits are taken -/

/-- The whole part is taken up to the first digit that does not fit. -/
theorem foldl_addWhole (digits : List Char) :
    ∃ front back, digits = front ++ back ∧
      digits.foldl addWhole ⟨0, 0, false⟩ =
        ⟨Numeral.natOf front, back.length, !back.isEmpty⟩ ∧
      Numeral.natOf front < wordLimit ∧
      ∀ c ∈ back.head?, wordLimit ≤ 10 * Numeral.natOf front + Numeral.digitValue c := by
  induction digits using List.reverseRecOn with
  | nil => exact ⟨[], [], rfl, rfl, by decide, nofun⟩
  | append_singleton digits c ih =>
    obtain ⟨front, back, rfl, hfold, hfits, hnext⟩ := ih
    rw [List.foldl_append, hfold]
    cases back with
    | nil =>
      by_cases hc : 10 * Numeral.natOf front + Numeral.digitValue c < wordLimit
      · refine ⟨front ++ [c], [], by simp, ?_, by rwa [Numeral.natOf_concat], nofun⟩
        simp [addWhole, hc, Numeral.natOf_concat]
      · refine ⟨front, [c], by simp, ?_, hfits, ?_⟩
        · simp [addWhole, hc]
        · rintro d ⟨⟩
          exact not_lt.mp hc
    | cons d back =>
      refine ⟨front, d :: (back ++ [c]), by simp, ?_, hfits, hnext⟩
      simp [addWhole]

/-- The fraction is taken up to the first digit that does not fit. -/
theorem foldl_addFraction (start : Nat) (shift : Int) (digits : List Char) :
    ∃ front back, digits = front ++ back ∧
      digits.foldl addFraction ⟨start, shift, false⟩ =
        ⟨start * 10 ^ front.length + Numeral.natOf front, shift - front.length, !back.isEmpty⟩ ∧
      (front ≠ [] → start * 10 ^ front.length + Numeral.natOf front < wordLimit) ∧
      ∀ c ∈ back.head?, wordLimit ≤
        10 * (start * 10 ^ front.length + Numeral.natOf front) + Numeral.digitValue c := by
  induction digits using List.reverseRecOn with
  | nil => exact ⟨[], [], rfl, by simp [Numeral.natOf], nofun, nofun⟩
  | append_singleton digits c ih =>
    obtain ⟨front, back, rfl, hfold, hfits, hnext⟩ := ih
    rw [List.foldl_append, hfold]
    cases back with
    | nil =>
      have hmore : start * 10 ^ (front ++ [c]).length + Numeral.natOf (front ++ [c]) =
          10 * (start * 10 ^ front.length + Numeral.natOf front) + Numeral.digitValue c := by
        rw [Numeral.natOf_concat, List.length_append, List.length_singleton, pow_succ]
        ring
      by_cases hc : 10 * (start * 10 ^ front.length + Numeral.natOf front) +
          Numeral.digitValue c < wordLimit
      · refine ⟨front ++ [c], [], by simp, ?_, fun _ => by rwa [hmore], nofun⟩
        rw [hmore]
        simp [addFraction, hc]
        omega
      · refine ⟨front, [c], by simp, ?_, hfits, ?_⟩
        · simp [addFraction, hc]
        · rintro d ⟨⟩
          exact not_lt.mp hc
    | cons d back =>
      refine ⟨front, d :: (back ++ [c]), by simp, ?_, hfits, hnext⟩
      simp [addFraction]

/-- A number with a cut in its whole part and one in its fraction. The digits in front of the cuts
are the leading digits, and the first digit behind each of them does not fit. -/
structure Cut (l : Leading) (n : Numeral) (whole rest fraction dust : List Char) : Prop where
  whole_eq : n.whole = whole ++ rest
  fraction_eq : n.fraction = fraction ++ dust
  digits : l.digits = Numeral.natOf (whole ++ fraction)
  shift : l.shift = rest.length - fraction.length + n.power
  full : l.full = !rest.isEmpty
  whole_lt : Numeral.natOf whole < wordLimit
  rest_beyond : ∀ c ∈ rest.head?, wordLimit ≤ 10 * Numeral.natOf whole + Numeral.digitValue c
  digits_lt : fraction ≠ [] → l.digits < wordLimit
  dust_beyond : ∀ c ∈ dust.head?, wordLimit ≤ 10 * l.digits + Numeral.digitValue c

theorem exists_cut (n : Numeral) :
    ∃ whole rest fraction dust, Cut (ofNumeral n) n whole rest fraction dust := by
  obtain ⟨whole, rest, hwhole, hfold, hfits, hbeyond⟩ := foldl_addWhole n.whole
  obtain ⟨fraction, dust, hfraction, hfold', hfits', hbeyond'⟩ :=
    foldl_addFraction (Numeral.natOf whole) rest.length n.fraction
  rw [← Numeral.natOf_append] at hfold' hfits' hbeyond'
  have hof : ofNumeral n = ⟨Numeral.natOf (whole ++ fraction),
      rest.length - fraction.length + n.power, !rest.isEmpty⟩ := by
    simp only [ofNumeral, hfold, hfold']
  refine ⟨whole, rest, fraction, dust, ?_⟩
  rw [hof]
  exact ⟨hwhole, hfraction, rfl, rfl, rfl, hfits, hbeyond, hfits', hbeyond'⟩

/-! ## How much is cut off -/

section CutOff

variable {n : Numeral} {l : Leading} {front back whole rest fraction dust : List Char}

/-- The rational number that the digits and the power of ten are. -/
def magnitude (l : Leading) : ℚ := l.digits * 10 ^ l.shift

/-- The leading digits fall short of the number by at most one part in `2 ^ 56`. -/
structure Near (l : Leading) (n : Numeral) : Prop where
  le : l.magnitude ≤ n.magnitude
  ge : n.magnitude ≤ l.magnitude * (1 + 1 / 2 ^ 56)

theorem magnitude_nonneg (l : Leading) : 0 ≤ l.magnitude :=
  mul_nonneg (Nat.cast_nonneg _) (zpow_nonneg (by norm_num) _)

/-- Nothing is cut off. -/
theorem near_of_whole (hdigits : l.digits = Numeral.natOf (n.whole ++ n.fraction))
    (hshift : l.shift = n.power - n.fraction.length) : l.Near n := by
  have heq : n.magnitude = l.magnitude := by rw [Numeral.magnitude, magnitude, hdigits, hshift]
  have hnonneg := magnitude_nonneg l
  refine ⟨heq.ge, heq.le.trans ?_⟩
  linarith

/-- The power of ten that stands behind the digits in front of a cut. -/
theorem magnitude_eq_cut (hsplit : n.whole ++ n.fraction = front ++ back)
    (hshift : l.shift = back.length + n.power - n.fraction.length) :
    n.magnitude = Numeral.natOf (front ++ back) / 10 ^ back.length * 10 ^ l.shift := by
  have hpower : n.power - n.fraction.length = l.shift - back.length := by omega
  have hten : (10 : ℚ) ≠ 0 := by norm_num
  rw [Numeral.magnitude, hsplit, hpower, zpow_sub₀ hten, zpow_natCast]
  ring

/-- Behind many digits, little is cut off. The last digit in front of the cut may be off as well. -/
theorem near_of_cut (hsplit : n.whole ++ n.fraction = front ++ back)
    (hshift : l.shift = back.length + n.power - n.fraction.length)
    (hback : ∀ c ∈ back, c.isDigit) (hlarge : 2 ^ 60 ≤ l.digits)
    (hle : l.digits ≤ Numeral.natOf front) (hlt : Numeral.natOf front < l.digits + 10) :
    l.Near n := by
  have hpower : (0 : ℚ) < 10 ^ l.shift := zpow_pos (by norm_num) _
  have hplace : (0 : ℚ) < 10 ^ back.length := by positivity
  have hlow : (l.digits : ℚ) ≤ Numeral.natOf (front ++ back) / 10 ^ back.length := by
    rw [le_div_iff₀ hplace, Numeral.natOf_append]
    exact_mod_cast (Nat.mul_le_mul_right _ hle).trans (Nat.le_add_right _ _)
  have hhigh : (Numeral.natOf (front ++ back) / 10 ^ back.length : ℚ) ≤ l.digits + 10 := by
    have hrest := Numeral.natOf_lt hback
    have hfront := Nat.mul_le_mul_right (10 ^ back.length) (Nat.succ_le_of_lt hlt)
    rw [Nat.succ_mul] at hfront
    rw [div_le_iff₀ hplace, Numeral.natOf_append]
    exact_mod_cast (Nat.add_le_add_left hrest.le _).trans hfront
  have hdigits : (l.digits + 10 : ℚ) ≤ l.digits * (1 + 1 / 2 ^ 56) := by
    have hcast : (2 ^ 60 : ℚ) ≤ l.digits := by exact_mod_cast hlarge
    linarith
  constructor
  · rw [magnitude_eq_cut hsplit hshift]
    exact mul_le_mul_of_nonneg_right hlow hpower.le
  · rw [magnitude_eq_cut hsplit hshift, magnitude, mul_right_comm]
    exact mul_le_mul_of_nonneg_right (hhigh.trans hdigits) hpower.le

/-- At most one digit of the fraction is taken once the whole part has been cut off, and it stands
where a greater one has been left out. -/
theorem Cut.fraction_of_full {c : Char} {fraction : List Char}
    (h : Cut l n whole (c :: rest) fraction dust) (hc : Numeral.digitValue c ≤ 9) :
    fraction = [] ∨ ∃ d, fraction = [d] ∧ Numeral.digitValue d < Numeral.digitValue c := by
  have hlimit : wordLimit = 2 ^ 64 := rfl
  have hbeyond : wordLimit ≤ 10 * Numeral.natOf whole + Numeral.digitValue c :=
    h.rest_beyond c rfl
  cases fraction with
  | nil => exact .inl rfl
  | cons d fraction =>
    have hfits := h.digits_lt (List.cons_ne_nil d fraction)
    rw [h.digits] at hfits
    cases fraction with
    | nil =>
      rw [Numeral.natOf_concat] at hfits
      exact .inr ⟨d, rfl, by omega⟩
    | cons e fraction =>
      have hpower : 10 ^ 2 ≤ 10 ^ (d :: e :: fraction).length :=
        Nat.pow_le_pow_right (by decide) (by simp)
      have hmul := Nat.mul_le_mul_left (Numeral.natOf whole) hpower
      rw [Numeral.natOf_append] at hfits
      omega

/-- The whole part fits, and the fraction is cut off where the digits do not fit any more. -/
theorem Cut.near_of_fits (h : Cut l n whole [] fraction dust)
    (hdigits : ∀ c ∈ dust, c.isDigit) : l.Near n := by
  have hlimit : wordLimit = 2 ^ 64 := rfl
  have hshift := h.shift
  have hlength := congrArg List.length h.fraction_eq
  rw [List.length_append] at hlength
  rw [List.length_nil] at hshift
  cases dust with
  | nil =>
    rw [List.length_nil] at hlength
    refine near_of_whole ?_ (by omega)
    rw [h.digits, h.whole_eq, h.fraction_eq, List.append_nil, List.append_nil]
  | cons c dust =>
    have hc : Numeral.digitValue c ≤ 9 := Numeral.digitValue_le (hdigits c List.mem_cons_self)
    have hbeyond := h.dust_beyond c rfl
    have htaken := h.digits
    have hsplit : n.whole ++ n.fraction = (whole ++ fraction) ++ c :: dust := by
      simp [h.whole_eq, h.fraction_eq]
    exact near_of_cut hsplit (by omega) hdigits (by omega) htaken.le (by omega)

/-- The whole part does not fit. -/
theorem Cut.near_of_full {c : Char} (h : Cut l n whole (c :: rest) fraction dust)
    (hdigits : ∀ d ∈ (c :: rest) ++ (fraction ++ dust), d.isDigit) : l.Near n := by
  have hlimit : wordLimit = 2 ^ 64 := rfl
  have hc : Numeral.digitValue c ≤ 9 := Numeral.digitValue_le (hdigits c List.mem_cons_self)
  have hbeyond := h.rest_beyond c rfl
  have hshift := h.shift
  have htaken := h.digits
  have hlength := congrArg List.length h.fraction_eq
  rw [List.length_append] at hlength
  rw [List.length_cons] at hshift
  obtain rfl | ⟨d, rfl, hd⟩ := h.fraction_of_full hc
  · have hsplit : n.whole ++ n.fraction = whole ++ (c :: rest ++ dust) := by
      simp [h.whole_eq, h.fraction_eq]
    rw [List.append_nil] at htaken
    refine near_of_cut hsplit ?_ hdigits (by omega) htaken.le (by omega)
    simp only [List.length_append, List.length_cons, List.length_nil] at hshift hlength ⊢
    omega
  · have hsplit : n.whole ++ n.fraction = (whole ++ [c]) ++ (rest ++ d :: dust) := by
      simp [h.whole_eq, h.fraction_eq]
    have hfront : Numeral.natOf (whole ++ [c]) = 10 * Numeral.natOf whole + Numeral.digitValue c :=
      Numeral.natOf_concat
    rw [Numeral.natOf_concat] at htaken
    refine near_of_cut hsplit ?_ (List.forall_mem_cons.mp hdigits).2 (by omega) (by omega)
      (by omega)
    simp only [List.length_append, List.length_cons, List.length_nil] at hshift hlength ⊢
    omega

/-- **Little is cut off.** The leading digits of a number fall short of it by at most one part in
`2 ^ 56`. -/
theorem near_ofNumeral (hn : n.IsProper) : (ofNumeral n).Near n := by
  obtain ⟨whole, rest, fraction, dust, hcut⟩ := exists_cut n
  have hdigits := hn.isDigit
  rw [hcut.whole_eq, hcut.fraction_eq] at hdigits
  obtain ⟨hwhole, hfraction⟩ := List.forall_mem_append.mp hdigits
  cases rest with
  | nil => exact hcut.near_of_fits (List.forall_mem_append.mp hfraction).2
  | cons c rest =>
    have hrest := (List.forall_mem_append.mp hwhole).2
    exact hcut.near_of_full (List.forall_mem_append.mpr ⟨hrest, hfraction⟩)

end CutOff

end Number.Leading

end TaggedUnion
