import TaggedUnion.Proofs.Decimal.Int32
import TaggedUnion.Proofs.Json.Leading

/-!
# The number that JSON text stands for

An integer of 64 bits is kept, and anything else is rounded in a few steps. So what is close to the
end of the doubles may fall on either side of it.

* `Numeral.IsWord`, `Number.ofNumeral?_eq_integer_iff`: the integers that are kept.
* `Number.int32?_ofNumeral?`: an integer is taken for 32 bits exactly if it has them, even if it is
  not kept.
* `Number.ofNumeral?_isSome_iff`: away from the end of the doubles, the numbers that are refused are
  those that are too large.
-/

namespace TaggedUnion

namespace Binary64

/-- How close to `overflow` the steps of rounding are not told apart: two and a half units in the
last place of the greatest doubles. -/
def margin : ℚ := 5 * 2 ^ 970

theorem margin_pos : 0 < margin := by
  rw [margin]
  positivity

theorem overflow_eq_mul : overflow = (2 ^ 54 - 1) * 2 ^ 970 := by
  have htop : (2 : ℚ) ^ 1024 = 2 ^ 54 * 2 ^ 970 := by rw [← pow_add]
  rw [overflow, htop, sub_mul, one_mul]

/-! ## Scaling -/

section Scaling

variable {x : Binary64} {digits k : Nat}

/-- A word is far from the end of the doubles. -/
theorem two_mul_lt_overflow (h : digits < Number.wordLimit) : 2 * (digits : ℚ) < overflow := by
  have hlimit : 2 * Number.wordLimit ≤ 10 ^ 308 := by decide +kernel
  have hdigits : 2 * digits < 10 ^ 308 := by omega
  exact lt_trans (by exact_mod_cast hdigits) pow_lt_overflow

theorem approximates_ofNat (hpos : 0 < digits) (hlt : digits < Number.wordLimit) :
    (ofNat digits).Approximates digits := by
  have hquotient : (digits : ℚ) / (1 : Nat) = digits := by simp
  have hone : (1 : ℚ) ≤ digits := by exact_mod_cast hpos
  have hsome : round false digits 1 ≠ none := by
    have hlarge := two_mul_lt_overflow hlt
    rw [Ne, round_eq_none_iff one_pos, hquotient, not_le]
    linarith
  obtain ⟨x, hx⟩ := Option.ne_none_iff_exists'.mp hsome
  have happrox := approximates_of_round one_pos (by rw [hquotient]; linarith) hx
  rw [hquotient] at happrox
  rwa [ofNat, hx, Option.getD_some]

theorem approximates_powerOfTen (hk : k ≤ 308) : (powerOfTen k).Approximates (10 ^ k) := by
  have hpower : ((1 : Nat) : ℚ) * 10 ^ (k : Int) = 10 ^ k := by simp
  have hsome : ofDecimal? false 1 k ≠ none := by
    rw [Ne, ofDecimal?_eq_none_iff, hpower, not_le]
    exact (pow_le_pow_right₀ (by norm_num) hk).trans_lt pow_lt_overflow
  obtain ⟨x, hx⟩ := Option.ne_none_iff_exists'.mp hsome
  have hone : (1 : ℚ) ≤ 10 ^ k := one_le_pow₀ (by norm_num)
  have happrox := approximates_of_ofDecimal? (by rwa [hpower]) hx
  rw [hpower] at happrox
  rwa [powerOfTen, hx, Option.getD_some]

/-- The product of digits and a power that have been rounded each. -/
theorem product_between (hpos : 0 < digits) (hlt : digits < Number.wordLimit) (hk : k ≤ 308) :
    digits * 10 ^ k * (1 - 1 / 2 ^ 52) ≤ (ofNat digits).magnitude * (powerOfTen k).magnitude ∧
      (ofNat digits).magnitude * (powerOfTen k).magnitude ≤
        digits * 10 ^ k * (1 + 1 / 2 ^ 52 + 1 / 2 ^ 106) := by
  have hdigits := approximates_ofNat hpos hlt
  have hpower := approximates_powerOfTen hk
  have hdigits' : (0 : ℚ) < digits := Nat.cast_pos.mpr hpos
  have hpower' : (0 : ℚ) < 10 ^ k := by positivity
  have hnonneg : (0 : ℚ) ≤ digits * 10 ^ k := by positivity
  constructor
  · calc (digits : ℚ) * 10 ^ k * (1 - 1 / 2 ^ 52)
      _ ≤ digits * (1 - 1 / 2 ^ 53) * (10 ^ k * (1 - 1 / 2 ^ 53)) := by linarith
      _ ≤ _ := mul_le_mul hdigits.le hpower.le (by positivity) magnitude_nonneg
  · calc (ofNat digits).magnitude * (powerOfTen k).magnitude
      _ ≤ digits * (1 + 1 / 2 ^ 53) * (10 ^ k * (1 + 1 / 2 ^ 53)) :=
        mul_le_mul hdigits.ge hpower.ge magnitude_nonneg (by positivity)
      _ = digits * 10 ^ k * (1 + 1 / 2 ^ 52 + 1 / 2 ^ 106) := by ring

theorem isZero_iff : x.isZero ↔ x.magnitude = 0 := by
  have hpos : (2 : ℚ) ^ x.exponent ≠ 0 := zpow_ne_zero _ two_ne_zero
  simp [isZero, magnitude, hpos]

/-- Without digits, there is nothing to scale. -/
theorem scaleUp?_zero (k : Nat) : ∃ x, (ofNat 0).scaleUp? k = some x ∧ x.magnitude = 0 := by
  have hzero : ofNat 0 = zero false := rfl
  have hmagnitude : ∀ negative, (zero negative).magnitude = 0 := fun negative => by
    simp [zero, magnitude]
  by_cases hk : k ≤ 308
  · refine ⟨zero (false != (powerOfTen k).negative), ?_, hmagnitude _⟩
    simp only [scaleUp?, if_pos hk, hzero, mul?, zero, Nat.zero_mul, round, ↓reduceIte]
  · refine ⟨_, ?_, hmagnitude false⟩
    simp only [scaleUp?, if_neg hk, hzero]
    rfl

variable (hpos : 0 < digits) (hlt : digits < Number.wordLimit)

include hpos hlt

/-- A power of ten that is not a double is refused. -/
theorem scaleUp?_of_lt (hk : 308 < k) : (ofNat digits).scaleUp? k = none := by
  have hlow := (approximates_ofNat hpos hlt).le
  have hdigits : (0 : ℚ) < digits := Nat.cast_pos.mpr hpos
  have hzero : ¬(ofNat digits).isZero := by
    rw [isZero_iff]
    linarith
  simp only [scaleUp?, if_neg (not_le.mpr hk), if_neg hzero]

/-- Digits that are scaled up stay away from zero. -/
theorem le_of_scaleUp? (h : (ofNat digits).scaleUp? k = some x) :
    (digits : ℚ) * 10 ^ k / 2 ≤ x.magnitude := by
  by_cases hk : k ≤ 308
  · have hproduct := (product_between hpos hlt hk).1
    have hone : (1 : ℚ) ≤ digits * 10 ^ k :=
      one_le_mul_of_one_le_of_one_le (by exact_mod_cast hpos) (one_le_pow₀ (by norm_num))
    rw [scaleUp?, if_pos hk] at h
    have happrox := (approximates_of_mul? (by linarith) h).le
    linarith
  · rw [scaleUp?_of_lt hpos hlt (not_le.mp hk)] at h
    cases h

/-- What is clearly too large is refused. -/
theorem scaleUp?_eq_none (h : overflow + margin ≤ digits * 10 ^ k * (1 + 1 / 2 ^ 56)) :
    (ofNat digits).scaleUp? k = none := by
  by_cases hk : k ≤ 308
  · have hproduct := (product_between hpos hlt hk).1
    rw [scaleUp?, if_pos hk, mul?_eq_none_iff]
    refine le_trans ?_ hproduct
    -- By the unit, the bound is linear: two roundings and the cut take off less than the margin.
    have hunit : (0 : ℚ) < 2 ^ 970 := by positivity
    rw [overflow_eq_mul, margin] at *
    generalize (2 : ℚ) ^ 970 = unit at *
    linarith
  · exact scaleUp?_of_lt hpos hlt (not_le.mp hk)

/-- What is clearly not too large is scaled. -/
theorem scaleUp?_isSome (h : (digits : ℚ) * 10 ^ k ≤ overflow - margin) :
    ((ofNat digits).scaleUp? k).isSome := by
  have hone : (1 : ℚ) ≤ digits := by exact_mod_cast hpos
  have hunit : (0 : ℚ) < 2 ^ 970 := by positivity
  have hk : k ≤ 308 := by
    by_contra hk
    have hpower : (10 : ℚ) ^ 309 ≤ digits * 10 ^ k :=
      (pow_le_pow_right₀ (by norm_num) (not_le.mp hk)).trans
        (le_mul_of_one_le_left (by positivity) hone)
    have hlarge := overflow_lt_pow.trans_le hpower
    have hmargin := margin_pos
    linarith
  have hproduct := (product_between hpos hlt hk).2
  rw [Option.isSome_iff_ne_none, scaleUp?, if_pos hk, Ne, mul?_eq_none_iff, not_le]
  refine lt_of_le_of_lt hproduct ?_
  rw [overflow_eq_mul, margin] at *
  generalize (2 : ℚ) ^ 970 = unit at *
  linarith

end Scaling

end Binary64

/-- The integers that are kept: those of 64 bits, with a sign or without, but no negative zero. -/
structure Numeral.IsWord (n : Numeral) : Prop where
  isInteger : n.isInteger
  ge : -2 ^ 63 ≤ n.wholeValue
  lt : n.wholeValue < 2 ^ 64
  nonzero : n.negative → n.wholeValue ≠ 0

namespace Number

open Binary64 (overflow margin)

/-! ## Digits and a power of ten -/

section Scaled

variable {negative : Bool} {digits : Nat} {shift : Int} {x : Binary64}

/-- What is clearly not too large has a double. -/
theorem scaled?_isSome (hlt : digits < wordLimit)
    (h : (digits : ℚ) * 10 ^ shift ≤ overflow - margin) :
    (scaled? negative digits shift).isSome := by
  unfold scaled?
  simp only [Option.isSome_map]
  split_ifs with hshift
  · obtain ⟨k, rfl⟩ := Int.eq_ofNat_of_zero_le hshift
    rw [Int.toNat_natCast]
    obtain rfl | hpos := Nat.eq_zero_or_pos digits
    · obtain ⟨x, hx, -⟩ := Binary64.scaleUp?_zero k
      rw [hx]
      rfl
    · rw [zpow_natCast] at h
      exact Binary64.scaleUp?_isSome hpos hlt h
  · rfl

/-- What is clearly too large has no double. -/
theorem scaled?_eq_none (hlt : digits < wordLimit)
    (h : overflow + margin ≤ digits * 10 ^ shift * (1 + 1 / 2 ^ 56)) :
    scaled? negative digits shift = none := by
  have hmargin := Binary64.margin_pos
  have hoverflow := Binary64.overflow_pos
  unfold scaled?
  simp only [Option.map_eq_none_iff]
  split_ifs with hshift
  · obtain ⟨k, rfl⟩ := Int.eq_ofNat_of_zero_le hshift
    rw [Int.toNat_natCast]
    obtain rfl | hpos := Nat.eq_zero_or_pos digits
    · rw [Nat.cast_zero, zero_mul, zero_mul] at h
      linarith
    · rw [zpow_natCast] at h
      exact Binary64.scaleUp?_eq_none hpos hlt h
  · have hpower : (10 : ℚ) ^ shift ≤ 1 := zpow_le_one_of_nonpos₀ (by norm_num) (by omega)
    have hdown := mul_le_of_le_one_right (Nat.cast_nonneg digits) hpower
    have hlarge := Binary64.two_mul_lt_overflow hlt
    linarith

/-- Digits that are scaled up stay away from zero. -/
theorem le_of_scaled? (hlt : digits < wordLimit) (hshift : 0 ≤ shift)
    (h : scaled? negative digits shift = some x) : (digits : ℚ) * 10 ^ shift / 2 ≤ x.magnitude := by
  obtain ⟨k, rfl⟩ := Int.eq_ofNat_of_zero_le hshift
  simp only [scaled?, if_pos hshift, Int.toNat_natCast, Option.map_eq_some_iff] at h
  obtain ⟨y, hy, rfl⟩ := h
  rw [zpow_natCast]
  obtain rfl | hpos := Nat.eq_zero_or_pos digits
  · rw [Nat.cast_zero, zero_mul, zero_div]
    exact Binary64.magnitude_nonneg
  · have hle := Binary64.le_of_scaleUp? hpos hlt hy
    exact hle

end Scaled

/-! ## Numerals -/

section Numerals

variable {n : Numeral} {x : Binary64}

theorem parts_of_isInteger (h : n.isInteger) : n.fraction = [] ∧ n.power = 0 := by
  simp only [Numeral.isInteger, Bool.and_eq_true, List.isEmpty_iff, Option.isNone_iff_eq_none] at h
  exact ⟨h.1, by simp [Numeral.power, h.2]⟩

theorem digits_lt_wordLimit (n : Numeral) : (Leading.ofNumeral n).digits < wordLimit := by
  obtain ⟨whole, rest, fraction, dust, hcut⟩ := Leading.exists_cut n
  by_cases hfraction : fraction = []
  · rw [hcut.digits, hfraction, List.append_nil]
    exact hcut.whole_lt
  · exact hcut.digits_lt hfraction

/-- The leading digits of an integer are all of them, unless they are too many for a word. -/
theorem ofNumeral_of_isInteger (hint : n.isInteger) :
    0 ≤ (Leading.ofNumeral n).shift ∧
      ((Leading.ofNumeral n).full = false ∧ (Leading.ofNumeral n).digits = Numeral.natOf n.whole ∧
          (Leading.ofNumeral n).shift = 0 ∨
        (Leading.ofNumeral n).full ∧ wordLimit ≤ Numeral.natOf n.whole) := by
  obtain ⟨whole, rest, fraction, dust, hcut⟩ := Leading.exists_cut n
  obtain ⟨hfraction, hpower⟩ := parts_of_isInteger hint
  obtain ⟨rfl, rfl⟩ := List.append_eq_nil_iff.mp (hcut.fraction_eq.symm.trans hfraction)
  have hshift := hcut.shift
  rw [hpower, List.length_nil] at hshift
  refine ⟨by omega, ?_⟩
  cases rest with
  | nil =>
    refine .inl ⟨hcut.full, ?_, by simpa using hshift⟩
    rw [hcut.digits, hcut.whole_eq]
  | cons c rest =>
    have hbeyond := hcut.rest_beyond c rfl
    refine .inr ⟨hcut.full, hbeyond.trans ?_⟩
    have hsplit : n.whole = (whole ++ [c]) ++ rest := by simp [hcut.whole_eq]
    have hpos : 0 < 10 ^ rest.length := Nat.pow_pos (by decide)
    rw [hsplit, Numeral.natOf_append, Numeral.natOf_concat]
    exact (Nat.le_mul_of_pos_right _ hpos).trans (Nat.le_add_right _ _)

/-- The test for an integer that is kept. -/
theorem kept_iff_isWord :
    (n.isInteger && !(Leading.ofNumeral n).full && (!n.negative ||
      (decide (0 < (Leading.ofNumeral n).digits) &&
        decide (2 * (Leading.ofNumeral n).digits ≤ wordLimit)))) ↔ n.IsWord := by
  have hlimit : wordLimit = 2 ^ 64 := rfl
  have hlt := digits_lt_wordLimit n
  by_cases hint : n.isInteger
  · have hvalue : n.wholeValue =
        if n.negative then -(Numeral.natOf n.whole : Int) else Numeral.natOf n.whole := rfl
    have hword : n.IsWord ↔ -2 ^ 63 ≤ n.wholeValue ∧ n.wholeValue < 2 ^ 64 ∧
        (n.negative → n.wholeValue ≠ 0) :=
      ⟨fun h => ⟨h.ge, h.lt, h.nonzero⟩, fun ⟨hge, hlt, hne⟩ => ⟨hint, hge, hlt, hne⟩⟩
    rw [hword, hvalue]
    obtain ⟨-, ⟨hfull, hdigits, -⟩ | ⟨hfull, hlarge⟩⟩ := ofNumeral_of_isInteger hint
    · cases hnegative : n.negative <;> simp [hint, hfull, hdigits] <;> omega
    · cases hnegative : n.negative <;> simp [hfull] <;> omega
  · exact iff_of_false (by simp [hint]) fun h => hint h.isInteger

/-- An integer of 64 bits is kept. -/
theorem ofNumeral?_of_isWord (h : n.IsWord) : ofNumeral? n = some (.integer n.wholeValue) := by
  have hkept := kept_iff_isWord.mpr h
  obtain ⟨-, ⟨-, hdigits, -⟩ | ⟨hfull, -⟩⟩ := ofNumeral_of_isInteger h.isInteger
  · simp only [ofNumeral?, if_pos hkept]
    rw [hdigits, Numeral.wholeValue]
  · simp [hfull] at hkept

/-- Anything else is rounded. -/
theorem ofNumeral?_of_not_isWord (h : ¬n.IsWord) : ofNumeral? n =
    (scaled? n.negative (Leading.ofNumeral n).digits (Leading.ofNumeral n).shift).map double := by
  simp only [ofNumeral?, if_neg (mt kept_iff_isWord.mp h)]

/-- **Which integers are kept.** A number is held as an integer exactly if it is one of 64 bits. -/
theorem ofNumeral?_eq_integer_iff {i : Int} :
    ofNumeral? n = some (.integer i) ↔ n.IsWord ∧ n.wholeValue = i := by
  by_cases h : n.IsWord
  · simp [ofNumeral?_of_isWord h, h]
  · simp [ofNumeral?_of_not_isWord h, h]

theorem magnitude_of_isInteger (hint : n.isInteger) : n.magnitude = Numeral.natOf n.whole := by
  obtain ⟨hfraction, hpower⟩ := parts_of_isInteger hint
  simp [Numeral.magnitude, hfraction, hpower]

theorem natOf_whole_eq : Numeral.natOf n.whole = n.wholeValue.natAbs := by
  unfold Numeral.wholeValue
  split <;> omega

/-- **Away from the end of the doubles**, the numbers that are refused are those that are too
large. -/
theorem ofNumeral?_isSome_iff (hn : n.IsProper) (hclear : margin ≤ |n.magnitude - overflow|) :
    (ofNumeral? n).isSome ↔ n.magnitude < overflow := by
  have hmargin := Binary64.margin_pos
  by_cases hword : n.IsWord
  · have hlimit : wordLimit = 2 ^ 64 := rfl
    have hlt : Numeral.natOf n.whole < wordLimit := by
      have hge := hword.ge
      have hlt := hword.lt
      rw [natOf_whole_eq]
      omega
    have hlarge := Binary64.two_mul_lt_overflow hlt
    have hnonneg : (0 : ℚ) ≤ Numeral.natOf n.whole := Nat.cast_nonneg _
    rw [ofNumeral?_of_isWord hword, magnitude_of_isInteger hword.isInteger]
    exact iff_of_true rfl (by linarith)
  · obtain ⟨hle, hge⟩ := Leading.near_ofNumeral hn
    rw [ofNumeral?_of_not_isWord hword, Option.isSome_map]
    obtain hlow | hhigh := le_abs'.mp hclear
    · refine iff_of_true (scaled?_isSome (digits_lt_wordLimit n) ?_) (by linarith)
      exact hle.trans (by linarith)
    · have hnone : scaled? n.negative (Leading.ofNumeral n).digits (Leading.ofNumeral n).shift =
          none := scaled?_eq_none (digits_lt_wordLimit n) (le_trans (by linarith) hge)
      rw [hnone]
      exact iff_of_false (by simp) (by linarith)

/-- An integer beyond 64 bits is not rounded to one of 32. -/
theorem int32?_of_beyond (hn : n.IsProper) (hint : n.isInteger)
    (hbeyond : 2 ^ 63 ≤ Numeral.natOf n.whole) (h : ofNumeral? n = some (.double x)) :
    Builtin.int32? (.double x) = none := by
  have hword : ¬n.IsWord := fun hword => by
    rw [ofNumeral?_of_isWord hword] at h
    cases h
  rw [ofNumeral?_of_not_isWord hword, Option.map_eq_some_iff] at h
  obtain ⟨y, hy, hxy⟩ := h
  cases hxy
  have hlow := le_of_scaled? (digits_lt_wordLimit n) (ofNumeral_of_isInteger hint).1 hy
  have hnear := (Leading.near_ofNumeral hn).ge
  rw [magnitude_of_isInteger hint, Leading.magnitude] at hnear
  have hlarge : (2 ^ 63 : ℚ) ≤ Numeral.natOf n.whole := by exact_mod_cast hbeyond
  have hmagnitude : (2 ^ 61 : ℚ) ≤ x.magnitude := by linarith
  rw [Option.eq_none_iff_forall_ne_some]
  intro i hi
  obtain ⟨hvalue, hge, hlt⟩ := Builtin.int32?_eq_some_iff.mp hi
  have hge' : (-2 ^ 31 : ℚ) ≤ i := by exact_mod_cast hge
  have hlt' : (i : ℚ) < 2 ^ 31 := by exact_mod_cast hlt
  rw [← hvalue, value, Binary64.value] at hge' hlt'
  split_ifs at hge' hlt' <;> linarith

/-- A zero that is rounded stays zero. -/
theorem exists_zero (hint : n.isInteger) (hzero : n.wholeValue = 0) (hword : ¬n.IsWord) :
    ∃ x, ofNumeral? n = some (.double x) ∧ x.magnitude = 0 := by
  have hnat : Numeral.natOf n.whole = 0 := by
    rw [natOf_whole_eq, hzero]
    rfl
  obtain ⟨x, hx, hmagnitude⟩ := Binary64.scaleUp?_zero 0
  obtain ⟨-, ⟨-, hdigits, hshift⟩ | ⟨-, hlarge⟩⟩ := ofNumeral_of_isInteger hint
  · refine ⟨{ x with negative := n.negative }, ?_, hmagnitude⟩
    rw [ofNumeral?_of_not_isWord hword, hdigits, hshift, hnat]
    simp only [scaled?, le_refl, ↓reduceIte, Int.toNat_zero, hx, Option.map_some]
  · rw [hnat] at hlarge
    exact absurd hlarge (by decide)

/-- **Integers of 32 bits.** An integer is taken for one of 32 bits exactly if it is one, also a
negative zero and the integers that are rounded. -/
theorem int32?_ofNumeral? (hn : n.IsProper) (hint : n.isInteger) :
    (∃ number, ofNumeral? n = some number ∧ (Builtin.int32? number).isSome) ↔
      Builtin.isInt32 n.wholeValue := by
  by_cases hword : n.IsWord
  · rw [ofNumeral?_of_isWord hword]
    cases hfits : Builtin.isInt32 n.wholeValue <;> simp [Builtin.int32?_integer, hfits]
  by_cases hzero : n.wholeValue = 0
  · obtain ⟨x, hx, hmagnitude⟩ := exists_zero hint hzero hword
    have hvalue : (Number.double x).value = (0 : Int) := by
      rw [value, Binary64.value, hmagnitude]
      simp
    have hint32 := Builtin.int32?_eq_some_iff.mpr ⟨hvalue, by decide, by decide⟩
    rw [hzero]
    exact iff_of_true ⟨_, hx, by rw [hint32]; rfl⟩ rfl
  · have hrange : n.wholeValue < -2 ^ 63 ∨ 2 ^ 64 ≤ n.wholeValue := by
      by_contra hrange
      exact hword ⟨hint, by omega, by omega, fun _ => hzero⟩
    have hbeyond : 2 ^ 63 ≤ Numeral.natOf n.whole := by
      rw [natOf_whole_eq]
      omega
    refine iff_of_false ?_ ?_
    · rintro ⟨number, hnumber, hsome⟩
      cases number with
      | integer i => exact hword (ofNumeral?_eq_integer_iff.mp hnumber).1
      | double x => simp [int32?_of_beyond hn hint hbeyond hnumber] at hsome
    · simp only [Builtin.isInt32, decide_eq_true_eq]
      omega

end Numerals

end Number

end TaggedUnion
