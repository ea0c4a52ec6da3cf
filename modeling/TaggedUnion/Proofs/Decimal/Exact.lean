import Mathlib.Algebra.Order.Field.Rat
import Mathlib.Tactic.FieldSimp
import Mathlib.Tactic.NormNum
import TaggedUnion.Json.Basic

/-!
# Exact values of numbers

A number of a runtime value is held as an integer or as a double. Either way it stands for one
rational number.

* `Number.value`: that rational number.
* `Binary64.le_iff`: doubles are compared as those numbers.
* `Binary64.value_eq_intCast_iff`: a double equals an integer if it has no fraction and the integer
  is what is left without one.
-/

namespace TaggedUnion

namespace Binary64

/-- The rational number that a double is without its sign. -/
def magnitude (x : Binary64) : ℚ := x.significand * 2 ^ x.exponent

/-- The rational number that a double is. -/
def value (x : Binary64) : ℚ := if x.negative then -x.magnitude else x.magnitude

variable {x : Binary64} {i : Int}

theorem magnitude_nonneg : 0 ≤ x.magnitude :=
  mul_nonneg (Nat.cast_nonneg _) (zpow_nonneg (by norm_num) _)

theorem denominator_pos : 0 < x.denominator := Nat.two_pow_pos _

/-- A double is the quotient of its numerator and its denominator. -/
theorem value_eq_div : x.value = (x.numerator : ℚ) / x.denominator := by
  have hmagnitude : x.magnitude =
      (x.significand * 2 ^ x.exponent.toNat : ℚ) / 2 ^ (-x.exponent).toNat := by
    obtain ⟨k, hk | hk⟩ := Int.eq_nat_or_neg x.exponent
    · simp [magnitude, hk]
    · simp [magnitude, hk, div_eq_mul_inv]
  rw [value, hmagnitude, numerator, denominator]
  split <;> simp [neg_div]

/-- Comparison of doubles is that of the numbers that they are. -/
theorem le_iff {y : Binary64} : x.le y ↔ x.value ≤ y.value := by
  have hx : (0 : ℚ) < x.denominator := by exact_mod_cast denominator_pos
  have hy : (0 : ℚ) < y.denominator := by exact_mod_cast denominator_pos
  rw [value_eq_div, value_eq_div, div_le_div_iff₀ hx hy, le, decide_eq_true_eq]
  norm_cast

/-- **Doubles that are integers.** A double equals an integer if it has no fraction and the integer
is what is left without one. -/
theorem value_eq_intCast_iff : x.value = i ↔ x.isWhole ∧ x.truncate = i := by
  have hpos := denominator_pos (x := x)
  rw [value_eq_div, div_eq_iff (by exact_mod_cast hpos.ne'), isWhole, truncate, decide_eq_true_eq]
  norm_cast
  constructor
  · intro h
    rw [h]
    exact ⟨Int.mul_emod_left _ _, Int.mul_tdiv_cancel _ (by exact_mod_cast hpos.ne')⟩
  · rintro ⟨hwhole, rfl⟩
    exact (Int.tdiv_mul_cancel (Int.dvd_of_emod_eq_zero hwhole)).symm

end Binary64

/-- The rational number that a number is. -/
def Number.value : Number → ℚ
  | integer i => i
  | double x => x.value

end TaggedUnion
