import TaggedUnion.Proofs.Decimal.Rounding
import TaggedUnion.Scalar.Builtin

/-!
# Integers of 32 bits

`Int` looks at a number as a signed word, and at any other number as a double, which is tested and
cast. That comes to this: it finds the integer of 32 bits that the number equals.

* `int32OfDouble?_eq_some_iff`: what is found in a double.
* `int32?_integer`: what is found in an integer, also in one that is rounded to a double first.
* `int32?_eq_some_iff`: what is found in a number.
-/

namespace TaggedUnion

namespace Builtin

variable {i : Int}

theorem isInt32_iff : isInt32 i ↔ -2 ^ 31 ≤ i ∧ i ≤ 2 ^ 31 - 1 := by
  simp [isInt32]

/-- In range, the cast does no more than to cut off the fraction. -/
theorem int32OfDouble_of_isInt32 {x : Binary64} (h : isInt32 x.truncate) :
    int32OfDouble x = x.truncate := by
  obtain ⟨hlow, hhigh⟩ := of_decide_eq_true h
  rw [int32OfDouble, min_eq_right hhigh, max_eq_right hlow]

/-- The cast of a double finds the integer that the double equals. -/
theorem int32OfDouble?_eq_some_iff {x : Binary64} :
    int32OfDouble? x = some i ↔ x.value = i ∧ isInt32 i := by
  have hleast : (⟨true, 2147483648, 0⟩ : Binary64).value = (-2147483648 : Int) := by
    norm_num [Binary64.value, Binary64.magnitude]
  have hgreatest : (⟨false, 2147483647, 0⟩ : Binary64).value = (2147483647 : Int) := by
    norm_num [Binary64.value, Binary64.magnitude]
  simp only [int32OfDouble?, Option.ite_none_right_eq_some, Bool.and_eq_true, Option.some.injEq,
    Binary64.le_iff, hleast, hgreatest, and_assoc]
  constructor
  · rintro ⟨hwhole, hlow, hhigh, rfl⟩
    have hvalue : x.value = x.truncate := Binary64.value_eq_intCast_iff.mpr ⟨hwhole, rfl⟩
    rw [hvalue, Int.cast_le] at hlow hhigh
    have hrange : isInt32 x.truncate := decide_eq_true ⟨hlow, hhigh⟩
    rw [int32OfDouble_of_isInt32 hrange]
    exact ⟨hvalue, hrange⟩
  · rintro ⟨hvalue, hrange⟩
    obtain ⟨hwhole, rfl⟩ := Binary64.value_eq_intCast_iff.mp hvalue
    obtain ⟨hlow, hhigh⟩ := of_decide_eq_true hrange
    rw [hvalue, Int.cast_le, Int.cast_le]
    exact ⟨hwhole, hlow, hhigh, int32OfDouble_of_isInt32 hrange⟩

/-- A word of 64 bits that is too large for a signed one has no double of 32 bits. -/
theorem int32OfDouble?_of_round {negative : Bool} {n : Nat} {x : Binary64} (hlarge : 2 ^ 63 ≤ n)
    (h : Binary64.round negative n 1 = some x) : int32OfDouble? x = none := by
  -- Rounding does not bring a number below half its size.
  have hn : (2 : ℚ) ^ 63 ≤ n := by exact_mod_cast hlarge
  have hnear := (Binary64.approximates_of_round one_pos (by norm_num; linarith) h).le
  have hmagnitude : (2 : ℚ) ^ 62 ≤ x.magnitude := by
    norm_num at hnear ⊢
    linarith
  rw [Option.eq_none_iff_forall_ne_some]
  intro i hi
  obtain ⟨hvalue, hrange⟩ := int32OfDouble?_eq_some_iff.mp hi
  have habs : |(i : ℚ)| = x.magnitude := by
    rw [← hvalue, Binary64.value]
    split <;> simp [abs_of_nonneg Binary64.magnitude_nonneg]
  rw [← habs] at hmagnitude
  have hmagnitude : (2 : Int) ^ 62 ≤ |i| := by exact_mod_cast hmagnitude
  rw [isInt32_iff] at hrange
  rcases abs_cases i with ⟨heq, -⟩ | ⟨heq, -⟩ <;> omega

/-- **Integers that are rounded.** An integer is found if it has 32 bits. One that is not a signed
word of 64 bits is not found, also not after it has been rounded to a double. -/
theorem int32?_integer : int32? (.integer i) = if isInt32 i then some i else none := by
  by_cases hword : -9223372036854775808 ≤ i ∧ i ≤ 9223372036854775807
  · have hsigned : Number.int64? (.integer i) = some i := if_pos hword
    simp only [int32?, hsigned]
  · have hsigned : Number.int64? (.integer i) = none := if_neg hword
    have hbeyond : ¬isInt32 i ∧ 2 ^ 63 ≤ i.natAbs := by
      rw [isInt32_iff]
      omega
    simp only [int32?, hsigned, if_neg hbeyond.1, Number.toDouble?]
    cases hround : Binary64.round (i < 0) i.natAbs 1 with
    | none => rfl
    | some x => exact int32OfDouble?_of_round hbeyond.2 hround

/-- **Integers of 32 bits.** What is found in a number is the integer of 32 bits that the number
equals, whichever way it is held. -/
theorem int32?_eq_some_iff {n : Number} :
    int32? n = some i ↔ n.value = i ∧ -2 ^ 31 ≤ i ∧ i < 2 ^ 31 := by
  have hrange : isInt32 i ↔ -2 ^ 31 ≤ i ∧ i < 2 ^ 31 := by
    rw [isInt32_iff]
    omega
  rw [← hrange]
  cases n with
  | integer j =>
    rw [int32?_integer, Number.value, Int.cast_inj, Option.ite_none_right_eq_some,
      Option.some.injEq]
    grind
  | double x => exact int32OfDouble?_eq_some_iff

end Builtin

end TaggedUnion
