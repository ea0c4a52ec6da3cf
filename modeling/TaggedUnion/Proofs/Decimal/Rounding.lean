import Mathlib.Algebra.Order.Field.Power
import Mathlib.Tactic.Linarith
import Mathlib.Tactic.Positivity
import Mathlib.Tactic.Ring
import TaggedUnion.Decimal.Numeral
import TaggedUnion.Proofs.Decimal.Exact

/-!
# How quotients are rounded

One rounding of a quotient, seen from the rational number that the quotient is.

* `overflow`: the least magnitude that is too large for a double.
* `round_eq_none_iff`: a quotient has no nearest double exactly from `overflow` on.
* `approximates_of_round`: a quotient from one half on is off by at most one part in `2 ^ 53`.
-/

namespace TaggedUnion

namespace Binary64

/-- The least magnitude that is too large for a double. It lies halfway between the greatest double
and `2 ^ 1024`, and the tie goes up. -/
def overflow : ℚ := 2 ^ 1024 - 2 ^ 970

/-- The double stands for the number, up to one part in `2 ^ 53`. -/
def Approximates (x : Binary64) (q : ℚ) : Prop := |x.magnitude - q| ≤ q / 2 ^ 53

section Approximation

variable {x : Binary64} {q : ℚ}

theorem Approximates.le (h : x.Approximates q) : q * (1 - 1 / 2 ^ 53) ≤ x.magnitude := by
  have := (abs_le.mp h).1
  linarith

theorem Approximates.ge (h : x.Approximates q) : x.magnitude ≤ q * (1 + 1 / 2 ^ 53) := by
  have := (abs_le.mp h).2
  linarith

end Approximation

/-! ## Powers -/

section Powers

variable {num den base : Nat}

/-- A quotient times a power is a quotient, with the power on the side where it is natural. -/
theorem div_mul_zpow (num den base : Nat) (power : Int) :
    (num : ℚ) / den * (base : ℚ) ^ power =
      (num * Nat.pow base power.toNat : Nat) / (den * Nat.pow base (-power).toNat : Nat) := by
  obtain ⟨k, rfl | rfl⟩ := power.eq_nat_or_neg
  · simp [div_mul_eq_mul_div]
  · simp [← div_eq_mul_inv, div_div]

/-- How a quotient is compared with a power of two. -/
theorem zpow_le_div_iff (num : Nat) (hden : 0 < den) (power : Int) :
    (2 : ℚ) ^ power ≤ num / den ↔
      den * Nat.pow 2 power.toNat ≤ num * Nat.pow 2 (-power).toNat := by
  have hden' : (0 : ℚ) < den := Nat.cast_pos.mpr hden
  rw [le_div_iff₀ hden', mul_comm, ← Nat.cast_le (α := ℚ)]
  obtain ⟨k, rfl | rfl⟩ := power.eq_nat_or_neg
  · simp
  · have hpos : (0 : ℚ) < 2 ^ k := pow_pos two_pos k
    simp [← div_eq_mul_inv, div_le_iff₀ hpos]

end Powers

/-! ## Rounding to a natural -/

section Quotient

variable {num den k : Nat}

/-- The nearest natural is at most one half away. -/
theorem abs_roundQuotient_sub_le (hden : 0 < den) :
    |(roundQuotient num den : ℚ) - num / den| ≤ 1 / 2 := by
  have hsplit : den * (num / den) + num % den = num := Nat.div_add_mod num den
  have hrest : num % den < den := Nat.mod_lt num hden
  have hbounds : 2 * num ≤ 2 * (den * roundQuotient num den) + den ∧
      2 * (den * roundQuotient num den) ≤ 2 * num + den := by
    unfold roundQuotient
    simp only []
    split_ifs
    · omega
    · rw [Nat.mul_add, Nat.mul_one]
      omega
    · rcases Nat.mod_two_eq_zero_or_one (num / den) with hparity | hparity <;>
        rw [hparity, Nat.mul_add] <;> omega
  have hden' : (0 : ℚ) < den := Nat.cast_pos.mpr hden
  have hlow : (2 : ℚ) * num ≤ 2 * (den * roundQuotient num den) + den := by
    exact_mod_cast hbounds.1
  have hhigh : (2 : ℚ) * (den * roundQuotient num den) ≤ 2 * num + den := by
    exact_mod_cast hbounds.2
  have hquotient : (num : ℚ) = den * (num / den) := by field_simp
  rw [hquotient] at hlow hhigh
  rw [abs_le]
  constructor <;> nlinarith

/-- The nearest natural reaches an even number exactly if the quotient comes within one half. -/
theorem le_roundQuotient_iff (hden : 0 < den) (heven : k % 2 = 0) :
    k ≤ roundQuotient num den ↔ (k : ℚ) - 1 / 2 ≤ num / den := by
  have hden' : (0 : ℚ) < den := Nat.cast_pos.mpr hden
  have hcast : (k : ℚ) - 1 / 2 ≤ num / den ↔ 2 * (k * den) ≤ 2 * num + den := by
    rw [le_div_iff₀ hden', ← Nat.cast_le (α := ℚ)]
    push_cast
    constructor <;> intro h <;> linarith
  have hsplit : den * (num / den) + num % den = num := Nat.div_add_mod num den
  have hrest : num % den < den := Nat.mod_lt num hden
  rw [hcast, mul_comm k den]
  unfold roundQuotient
  simp only []
  generalize num / den = quotient at hsplit ⊢
  -- The number is at most the quotient, the next one, or beyond both.
  obtain hk | rfl | hk : k ≤ quotient ∨ k = quotient + 1 ∨ quotient + 2 ≤ k := by omega
  · have hmul : den * k ≤ den * quotient := Nat.mul_le_mul_left den hk
    split_ifs <;> omega
  · rw [Nat.mul_add, Nat.mul_one]
    split_ifs <;> omega
  · have hmul : den * (quotient + 2) ≤ den * k := Nat.mul_le_mul_left den hk
    rw [Nat.mul_add] at hmul
    split_ifs <;> omega

end Quotient

/-! ## The unit in the last place -/

section Exponent

variable {num den : Nat}

/-- The binary logarithms of two naturals tell their quotient apart up to a factor of four. -/
theorem div_between_logs (hnum : 0 < num) (hden : 0 < den) :
    (2 : ℚ) ^ ((num.log2 : Int) - den.log2 - 1) ≤ num / den ∧
      (num : ℚ) / den < 2 ^ ((num.log2 : Int) - den.log2 + 1) := by
  have hbetween : ∀ {n : Nat}, 0 < n →
      (2 : ℚ) ^ (n.log2 : Int) ≤ n ∧ (n : ℚ) < 2 ^ ((n.log2 : Int) + 1) := fun hn =>
    ⟨by exact_mod_cast Nat.log2_self_le hn.ne', by exact_mod_cast Nat.lt_log2_self⟩
  obtain ⟨hnumLow, hnumHigh⟩ := hbetween hnum
  obtain ⟨hdenLow, hdenHigh⟩ := hbetween hden
  have hpos : ∀ power : Int, (0 : ℚ) < 2 ^ power := zpow_pos two_pos
  constructor
  · rw [sub_sub, zpow_sub₀ two_ne_zero]
    exact div_le_div₀ (Nat.cast_nonneg num) hnumLow (Nat.cast_pos.mpr hden) hdenHigh.le
  · rw [sub_add_eq_add_sub, zpow_sub₀ two_ne_zero]
    exact div_lt_div₀ hnumHigh hdenLow (hpos _).le (hpos _)

/-- The significand has at most 53 bits. -/
theorem div_lt_of_exponentOf (hnum : 0 < num) (hden : 0 < den) :
    (num : ℚ) / den < 2 ^ (exponentOf num den + 53) := by
  have hlogs := (div_between_logs hnum hden).2
  have henough := zpow_le_div_iff num hden (num.log2 - den.log2 - 52 + 52)
  have hmono : ∀ {power : Int}, power ≤ exponentOf num den + 53 →
      (num : ℚ) / den < 2 ^ power → (num : ℚ) / den < 2 ^ (exponentOf num den + 53) :=
    fun hle hlt => hlt.trans_le (zpow_le_zpow_right₀ one_le_two hle)
  unfold exponentOf at hmono ⊢
  simp only [] at hmono ⊢
  split_ifs at hmono ⊢ with h
  · exact hmono (by omega) hlogs
  · refine hmono ?_ (not_le.mp (mt henough.mp h))
    omega

/-- The significand has 53 bits, unless the exponent is the least one. -/
theorem le_div_of_exponentOf (hnum : 0 < num) (hden : 0 < den)
    (hmin : minExponent < exponentOf num den) :
    (2 : ℚ) ^ (exponentOf num den + 52) ≤ num / den := by
  have hlogs := (div_between_logs hnum hden).1
  have henough := zpow_le_div_iff num hden (num.log2 - den.log2 - 52 + 52)
  have hmono : ∀ {power : Int}, exponentOf num den + 52 ≤ power →
      (2 : ℚ) ^ power ≤ num / den → (2 : ℚ) ^ (exponentOf num den + 52) ≤ num / den :=
    fun hle hlow => (zpow_le_zpow_right₀ one_le_two hle).trans hlow
  unfold exponentOf at hmin hmono ⊢
  simp only [] at hmin hmono ⊢
  split_ifs at hmin hmono ⊢ with h
  · exact hmono (by omega) (henough.mpr h)
  · exact hmono (by omega) hlogs

end Exponent

/-! ## Rounding to a double -/

section Round

variable {negative : Bool} {num den : Nat} {x : Binary64}

theorem scaled_quotient (exponent : Int) :
    ((num * Nat.pow 2 (-exponent).toNat : Nat) : ℚ) / (den * Nat.pow 2 exponent.toNat : Nat) =
      num / den / 2 ^ exponent := by
  have hdiv := div_mul_zpow num den 2 (-exponent)
  rw [neg_neg] at hdiv
  rw [← hdiv, zpow_neg, ← div_eq_mul_inv, Nat.cast_two]

/-- The nearest multiple of a power of two is at most half of it away. -/
theorem abs_scaled_sub_le (num : Nat) (hden : 0 < den) (exponent : Int) :
    |(scaled num den exponent : ℚ) * 2 ^ exponent - num / den| ≤ 2 ^ exponent / 2 := by
  have hpos : (0 : ℚ) < 2 ^ exponent := zpow_pos two_pos exponent
  have hden' : 0 < den * Nat.pow 2 exponent.toNat := Nat.mul_pos hden (Nat.two_pow_pos _)
  have hhalf : |(scaled num den exponent : ℚ) - num / den / 2 ^ exponent| ≤ 1 / 2 := by
    rw [← scaled_quotient]
    exact abs_roundQuotient_sub_le hden'
  have hfactor : (scaled num den exponent : ℚ) * 2 ^ exponent - num / den =
      (scaled num den exponent - num / den / 2 ^ exponent) * 2 ^ exponent := by
    field_simp
  have hunit : (2 : ℚ) ^ exponent / 2 = 1 / 2 * 2 ^ exponent := by ring
  rw [hfactor, abs_mul, abs_of_pos hpos, hunit]
  exact mul_le_mul_of_nonneg_right hhalf hpos.le

/-- The significand reaches an even number exactly if the quotient comes within half a unit. -/
theorem le_scaled_iff (hden : 0 < den) (exponent : Int) {k : Nat} (heven : k % 2 = 0) :
    k ≤ scaled num den exponent ↔ ((k : ℚ) - 1 / 2) * 2 ^ exponent ≤ num / den := by
  have hpos : (0 : ℚ) < 2 ^ exponent := zpow_pos two_pos exponent
  have hden' : 0 < den * Nat.pow 2 exponent.toNat := Nat.mul_pos hden (Nat.two_pow_pos _)
  rw [scaled, le_roundQuotient_iff hden' heven, scaled_quotient, le_div_iff₀ hpos]

/-- A significand that is too long is the next power of two. -/
theorem scaled_le (hnum : 0 < num) (hden : 0 < den) :
    scaled num den (exponentOf num den) ≤ 2 ^ 53 := by
  by_contra hlt
  have hlong : 2 ^ 53 + 1 ≤ scaled num den (exponentOf num den) := not_le.mp hlt
  have hquotient := div_lt_of_exponentOf hnum hden
  have hnear := (abs_le.mp (abs_scaled_sub_le num hden (exponentOf num den))).2
  have hpos : (0 : ℚ) < 2 ^ exponentOf num den := zpow_pos two_pos _
  have hmul : (2 ^ 53 + 1 : ℚ) * 2 ^ exponentOf num den ≤
      scaled num den (exponentOf num den) * 2 ^ exponentOf num den :=
    mul_le_mul_of_nonneg_right (by exact_mod_cast hlong) hpos.le
  rw [zpow_add₀ two_ne_zero] at hquotient
  norm_num at hquotient hmul
  linarith

/-- The magnitude of the nearest double is the rounded significand times the unit. -/
theorem magnitude_of_round (hnum : 0 < num) (h : round negative num den = some x) :
    x.magnitude = scaled num den (exponentOf num den) * 2 ^ exponentOf num den := by
  simp only [round, if_neg hnum.ne', Option.ite_none_right_eq_some, Option.some.injEq] at h
  obtain ⟨-, rfl⟩ := h
  split_ifs with hcarry
  · simp only [magnitude, hcarry, zpow_add_one₀ (two_ne_zero (α := ℚ))]
    norm_num
    ring
  · rfl

/-- The least magnitude that is too large, by the unit of the greatest doubles. -/
theorem overflow_eq : overflow = (((2 ^ 53 : Nat) : ℚ) - 1 / 2) * 2 ^ maxExponent := by
  have hunit : (2 : ℚ) ^ maxExponent = 2 * 2 ^ 970 := by
    rw [← pow_succ']
    exact zpow_natCast 2 971
  have htop : (2 : ℚ) ^ 1024 = 2 ^ 54 * 2 ^ 970 := by rw [← pow_add]
  rw [overflow, hunit, htop]
  generalize (2 : ℚ) ^ 970 = unit
  norm_num
  ring

/-- A quotient has no nearest double if the unit is too large, also once the significand has been
carried over. -/
theorem round_eq_none_iff_exponentOf (hnum : 0 < num) (hden : 0 < den) :
    round negative num den = none ↔
      maxExponent < exponentOf num den ∨
        exponentOf num den = maxExponent ∧ 2 ^ 53 ≤ scaled num den (exponentOf num den) := by
  have hle := scaled_le hnum hden
  have hpow : Nat.pow 2 53 = 2 ^ 53 := rfl
  by_cases hcarry : scaled num den (exponentOf num den) = Nat.pow 2 53
  · simp only [round, if_neg hnum.ne', if_pos hcarry, ite_eq_right_iff, reduceCtorEq, imp_false]
    omega
  · simp only [round, if_neg hnum.ne', if_neg hcarry, ite_eq_right_iff, reduceCtorEq, imp_false]
    omega

/-- **Where the doubles end.** A quotient has no nearest double exactly if it is at least
`overflow`. -/
theorem round_eq_none_iff (hden : 0 < den) :
    round negative num den = none ↔ overflow ≤ num / den := by
  have hunit : (0 : ℚ) < 2 ^ maxExponent := zpow_pos two_pos _
  by_cases hzero : num = 0
  · have hpos : 0 < overflow := by
      rw [overflow_eq]
      exact mul_pos (by norm_num) hunit
    simp [round, hzero, hpos]
  have hnum : 0 < num := Nat.pos_of_ne_zero hzero
  rw [round_eq_none_iff_exponentOf hnum hden, overflow_eq]
  obtain hlt | heq | hgt := lt_trichotomy (exponentOf num den) maxExponent
  · have hhigh : (num : ℚ) / den < 2 ^ 52 * 2 ^ maxExponent := by
      refine (div_lt_of_exponentOf hnum hden).trans_le ?_
      rw [← zpow_natCast, ← zpow_add₀ two_ne_zero]
      exact zpow_le_zpow_right₀ one_le_two (by push_cast; omega)
    refine iff_of_false (by omega) (not_le.mpr (hhigh.trans ?_))
    exact mul_lt_mul_of_pos_right (by norm_num) hunit
  · rw [heq, le_scaled_iff hden _ (by norm_num)]
    simp
  · refine iff_of_true (.inl hgt) (le_trans ?_ (le_div_of_exponentOf hnum hden ?_))
    · have hlow : (2 : ℚ) ^ 53 * 2 ^ maxExponent ≤ 2 ^ (exponentOf num den + 52) := by
        rw [← zpow_natCast, ← zpow_add₀ two_ne_zero]
        exact zpow_le_zpow_right₀ one_le_two (by push_cast; omega)
      refine le_trans ?_ hlow
      exact mul_le_mul_of_nonneg_right (by norm_num) hunit.le
    · exact lt_trans (by decide) hgt

/-- **One rounding.** The double nearest to a quotient that is at least one half is off by at most
one part in `2 ^ 53`. -/
theorem approximates_of_round (hden : 0 < den) (hhalf : (1 / 2 : ℚ) ≤ num / den)
    (h : round negative num den = some x) : x.Approximates (num / den) := by
  have hnum : 0 < num := by
    rw [Nat.pos_iff_ne_zero]
    rintro rfl
    norm_num at hhalf
  have hunit : (2 : ℚ) ^ (exponentOf num den + 52) ≤ num / den := by
    by_cases hmin : minExponent < exponentOf num den
    · exact le_div_of_exponentOf hnum hden hmin
    · have hsmall : exponentOf num den + 52 ≤ -1 := by
        have : minExponent = -1074 := rfl
        omega
      refine (zpow_le_zpow_right₀ one_le_two hsmall).trans ?_
      rwa [zpow_neg_one, inv_eq_one_div]
  rw [zpow_add₀ two_ne_zero] at hunit
  rw [Approximates, magnitude_of_round hnum h]
  refine (abs_scaled_sub_le num hden _).trans ?_
  norm_num at hunit ⊢
  linarith

end Round

/-! ## Decimals -/

section Decimals

variable {negative : Bool} {digits : Nat} {exponent : Int} {x : Binary64}

theorem pow_lt_overflow : (10 : ℚ) ^ 308 < overflow := by
  have hlt : 10 ^ 308 + 2 ^ 970 < 2 ^ 1024 := by decide +kernel
  rw [overflow, lt_sub_iff_add_lt]
  exact_mod_cast hlt

theorem overflow_lt_pow : overflow < (10 : ℚ) ^ 309 := by
  have hlt : 2 ^ 1024 < 10 ^ 309 + 2 ^ 970 := by decide +kernel
  rw [overflow, sub_lt_iff_lt_add]
  exact_mod_cast hlt

theorem overflow_pos : 0 < overflow := lt_trans (by positivity) pow_lt_overflow

/-- The number of digits tells where a natural lies between the powers of ten. -/
theorem between_pow_length (hdigits : digits ≠ 0) :
    10 ^ ((Nat.toDigits 10 digits).length - 1) ≤ digits ∧
      digits < 10 ^ (Nat.toDigits 10 digits).length := by
  have hlength {k : Nat} (hk : 0 < k) : (Nat.toDigits 10 digits).length ≤ k ↔ digits < 10 ^ k :=
    Nat.length_toDigits_le_iff (by decide) hk
  have hpos : 0 < (Nat.toDigits 10 digits).length := Nat.length_toDigits_pos
  refine ⟨not_lt.mp fun hlt => ?_, (hlength hpos).mp le_rfl⟩
  by_cases hone : (Nat.toDigits 10 digits).length = 1
  · simp [hone] at hlt
    omega
  · have := (hlength (by omega)).mpr hlt
    omega

/-- The place of the first digit tells where a decimal lies between the powers of ten. -/
theorem decimal_between (hdigits : digits ≠ 0) (exponent : Int) :
    (10 : ℚ) ^ (exponent + (Nat.toDigits 10 digits).length - 1) ≤ digits * 10 ^ exponent ∧
      digits * (10 : ℚ) ^ exponent < 10 ^ (exponent + (Nat.toDigits 10 digits).length) := by
  have hten : (10 : ℚ) ≠ 0 := by norm_num
  have hpower : (0 : ℚ) < 10 ^ exponent := zpow_pos (by norm_num) exponent
  have hlength : 0 < (Nat.toDigits 10 digits).length := Nat.length_toDigits_pos
  obtain ⟨hlow, hhigh⟩ := between_pow_length hdigits
  constructor
  · have hsplit : exponent + (Nat.toDigits 10 digits).length - 1 =
        (((Nat.toDigits 10 digits).length - 1 : Nat) : Int) + exponent := by omega
    rw [hsplit, zpow_add₀ hten]
    exact mul_le_mul_of_nonneg_right (by exact_mod_cast hlow) hpower.le
  · rw [add_comm, zpow_add₀ hten]
    exact mul_lt_mul_of_pos_right (by exact_mod_cast hhigh) hpower

/-- Between the shortcuts, a decimal is a quotient that is rounded. -/
theorem decimal_quotient (digits : Nat) (exponent : Int) :
    ((digits * Nat.pow 10 exponent.toNat : Nat) : ℚ) / (Nat.pow 10 (-exponent).toNat : Nat) =
      digits * 10 ^ exponent := by
  have hdiv := div_mul_zpow digits 1 10 exponent
  rw [Nat.one_mul, Nat.cast_one, div_one] at hdiv
  exact_mod_cast hdiv.symm

theorem natPow_ten_pos (k : Nat) : 0 < Nat.pow 10 k := Nat.pow_pos (n := k) (by decide)

/-- **Decimals beyond the doubles.** Neither shortcut changes which decimals have a nearest
double. -/
theorem ofDecimal?_eq_none_iff :
    ofDecimal? negative digits exponent = none ↔ overflow ≤ digits * 10 ^ exponent := by
  by_cases hzero : digits = 0
  · simp [ofDecimal?, hzero, overflow_pos]
  have hone : (1 : ℚ) ≤ 10 := by norm_num
  obtain ⟨hlow, hhigh⟩ := decimal_between hzero exponent
  unfold ofDecimal?
  simp only [hzero, false_or]
  split_ifs with hsmall hlarge
  · have hlt : (digits : ℚ) * 10 ^ exponent < overflow := calc
      _ < 10 ^ (exponent + (Nat.toDigits 10 digits).length) := hhigh
      _ ≤ (10 : ℚ) ^ (308 : Int) := zpow_le_zpow_right₀ hone (by omega)
      _ = 10 ^ 308 := zpow_natCast 10 308
      _ < overflow := pow_lt_overflow
    simpa using hlt
  · have hle : overflow ≤ digits * (10 : ℚ) ^ exponent := calc
      _ ≤ 10 ^ 309 := overflow_lt_pow.le
      _ = (10 : ℚ) ^ (309 : Int) := (zpow_natCast 10 309).symm
      _ ≤ 10 ^ (exponent + (Nat.toDigits 10 digits).length - 1) :=
        zpow_le_zpow_right₀ hone (by omega)
      _ ≤ digits * 10 ^ exponent := hlow
    simpa using hle
  · rw [round_eq_none_iff (natPow_ten_pos _), decimal_quotient]

/-- A decimal that is at least one is rounded once. -/
theorem approximates_of_ofDecimal? (hone : (1 : ℚ) ≤ digits * 10 ^ exponent)
    (h : ofDecimal? negative digits exponent = some x) :
    x.Approximates (digits * 10 ^ exponent) := by
  have hzero : digits ≠ 0 := by
    rintro rfl
    norm_num at hone
  have hplace : 0 ≤ exponent + (Nat.toDigits 10 digits).length := by
    by_contra hneg
    have hlt := (decimal_between hzero exponent).2
    have hle : (10 : ℚ) ^ (exponent + (Nat.toDigits 10 digits).length) ≤ 1 :=
      zpow_le_one_of_nonpos₀ (by norm_num) (by omega)
    linarith
  unfold ofDecimal? at h
  simp only [hzero, false_or] at h
  rw [if_neg (by omega), Option.ite_none_left_eq_some] at h
  rw [← decimal_quotient] at hone ⊢
  exact approximates_of_round (natPow_ten_pos _) (by linarith) h.2

end Decimals

/-! ## Products -/

section Products

variable {x y z : Binary64}

theorem mul_quotient (x y : Binary64) :
    ((x.significand * y.significand * Nat.pow 2 (x.exponent + y.exponent).toNat : Nat) : ℚ) /
        (Nat.pow 2 (-(x.exponent + y.exponent)).toNat : Nat) =
      x.magnitude * y.magnitude := by
  have hdiv := div_mul_zpow (x.significand * y.significand) 1 2 (x.exponent + y.exponent)
  rw [Nat.one_mul, Nat.cast_one, div_one, Nat.cast_two, zpow_add₀ two_ne_zero] at hdiv
  rw [← hdiv, magnitude, magnitude, Nat.cast_mul]
  ring

/-- A product has no double exactly if it is at least `overflow`. -/
theorem mul?_eq_none_iff : x.mul? y = none ↔ overflow ≤ x.magnitude * y.magnitude := by
  have hden : 0 < Nat.pow 2 (-(x.exponent + y.exponent)).toNat := Nat.two_pow_pos _
  rw [mul?, round_eq_none_iff hden, mul_quotient]

/-- A product that is at least one half is rounded once. -/
theorem approximates_of_mul? (hhalf : 1 / 2 ≤ x.magnitude * y.magnitude) (h : x.mul? y = some z) :
    z.Approximates (x.magnitude * y.magnitude) := by
  rw [← mul_quotient] at hhalf ⊢
  exact approximates_of_round (Nat.two_pow_pos _) hhalf h

end Products

end Binary64

/-- The rational number that a numeral is without its sign. -/
def Numeral.magnitude (n : Numeral) : ℚ :=
  natOf (n.whole ++ n.fraction) * 10 ^ (n.power - n.fraction.length)

/-- **Numerals beyond the doubles.** A numeral has no nearest double exactly if it is at least
`overflow`. -/
theorem Numeral.nearest?_eq_none_iff {n : Numeral} :
    n.nearest? = none ↔ Binary64.overflow ≤ n.magnitude :=
  Binary64.ofDecimal?_eq_none_iff

end TaggedUnion
