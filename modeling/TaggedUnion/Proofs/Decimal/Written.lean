import Mathlib.Algebra.Order.Ring.Int
import TaggedUnion.Scalar.Builtin

/-!
# Integers and their spelling

The text of an integer is read back as that integer, both as a whole number and as a double.

* `numeral?_intText`: the numeral that the text of an integer is.
* `natOf_digits`: the digits of a natural denote it.
* `intOfSpelling_intText`, `floatOfSpelling_intText`: what the scalars `Int` and `Float` make of the
  text of an integer.
-/

namespace TaggedUnion

/-! ## Digits -/

theorem isDigit_of_mem_digits {n : Nat} {c : Char} (h : c ∈ Decimal.digits n) : c.isDigit :=
  Nat.isDigit_of_mem_toDigits (by decide) (by decide) h

theorem natOf_digits (n : Nat) : Numeral.natOf (Decimal.digits n) = n :=
  Nat.ofDigitChars_ten_toDigits

/-- A positive natural is not written with a zero in front. -/
theorem head_digits_ne_zero {n : Nat} (hn : n ≠ 0) : (Decimal.digits n).head? ≠ some '0' := by
  induction n using Nat.strongRecOn with
  | ind n ih =>
    unfold Decimal.digits at ih ⊢
    rw [Nat.toDigits_eq_if (by decide)]
    split
    · simpa [Eq.comm] using hn
    · have hdiv := ih (n / 10) (by omega) (by omega)
      rw [List.head?_append]
      cases hhead : (Nat.toDigits 10 (n / 10)).head? with
      | none => simp at hhead
      | some c => simpa [hhead] using hdiv

/-! ## The numeral of an integer -/

/-- Digits are taken off a text as a whole. -/
theorem scanWhole_digits (n : Nat) :
    Numeral.scanWhole (Decimal.digits n) = some (Decimal.digits n, []) := by
  have hdigit : ∀ c ∈ Decimal.digits n, c.isDigit := fun c => isDigit_of_mem_digits
  by_cases hn : n = 0
  · subst hn
    rfl
  · have hhead := head_digits_ne_zero hn
    cases hdigits : Decimal.digits n with
    | nil => exact absurd hdigits Nat.toDigits_ne_nil
    | cons c cs =>
      rw [hdigits] at hdigit hhead
      have hrest : ∀ c ∈ cs, c.isDigit := fun c hc => hdigit c (List.mem_cons_of_mem _ hc)
      have hc : c ≠ '0' := by simpa using hhead
      have hspan : (cs ++ []).takeWhile Char.isDigit = cs ++ [] :=
        List.takeWhile_append_of_pos hrest
      have hdrop : (cs ++ []).dropWhile Char.isDigit = [] := List.dropWhile_append_of_pos hrest
      rw [List.append_nil] at hspan hdrop
      simp [Numeral.scanWhole, hc, hdigit c, hspan, hdrop]

theorem scanUnsigned_digits (negative : Bool) (n : Nat) :
    Numeral.scanUnsigned negative (Decimal.digits n) =
      some (⟨negative, Decimal.digits n, [], none⟩, []) := by
  simp [Numeral.scanUnsigned, scanWhole_digits, Numeral.scanFraction, Exponent.scan]

/-- The text of an integer is the numeral of its digits. -/
theorem numeral?_intText (i : Int) :
    Builtin.numeral? (intText i) =
      some ⟨decide (i < 0), Decimal.digits i.natAbs, [], none⟩ := by
  have hscan : Numeral.scan (intText i).toList =
      some (⟨decide (i < 0), Decimal.digits i.natAbs, [], none⟩, []) := by
    unfold intText
    by_cases hneg : i < 0
    · simp [hneg, Numeral.scan, scanUnsigned_digits]
    · simp only [hneg, ↓reduceIte, List.nil_append, String.toList_ofList, decide_false]
      have hdigit : ∀ c ∈ Decimal.digits i.natAbs, c.isDigit := fun c => isDigit_of_mem_digits
      have hunsigned := scanUnsigned_digits false i.natAbs
      cases hdigits : Decimal.digits i.natAbs with
      | nil => exact absurd hdigits Nat.toDigits_ne_nil
      | cons c cs =>
        rw [hdigits] at hunsigned hdigit
        have hc : c ≠ '-' := by
          rintro rfl
          exact absurd (hdigit '-' (by simp)) (by decide)
        simp [Numeral.scan, hc, hunsigned]
  simp [Builtin.numeral?, hscan]

/-- `Int` reads the text of an integer as that integer, if it has 32 bits. -/
theorem intOfSpelling_intText (i : Int) :
    Builtin.intOfSpelling (intText i) =
      if Builtin.isInt32 i then .ok (.number (.integer i)) else .error (.notInt32 (intText i)) := by
  have hvalue : Numeral.wholeValue ⟨decide (i < 0), Decimal.digits i.natAbs, [], none⟩ = i := by
    simp only [Numeral.wholeValue, natOf_digits, decide_eq_true_eq]
    omega
  have hinteger : Numeral.isInteger ⟨decide (i < 0), Decimal.digits i.natAbs, [], none⟩ := rfl
  rw [Builtin.intOfSpelling, numeral?_intText, Option.filter_some_pos hinteger]
  simp only [hvalue]

/-! ## The double of an integer -/

namespace Binary64

theorem exponentOf_le {num den : Nat} {bits : Int} (hmin : minExponent ≤ bits)
    (hbits : (num.log2 : Int) - 52 ≤ bits) : exponentOf num den ≤ bits := by
  unfold exponentOf
  simp only []
  split <;> omega

/-- A quotient of a numerator that is not too large has a nearest double. -/
theorem round_isSome {negative : Bool} {num den : Nat} (h : num.log2 ≤ 1022) :
    (round negative num den).isSome := by
  have hexp : exponentOf num den ≤ 970 := exponentOf_le (by decide) (by omega)
  unfold round
  by_cases hzero : num = 0
  · simp [hzero]
  · simp only [hzero, ↓reduceIte]
    have hmax : maxExponent = 971 := rfl
    split <;> rename_i hcarry <;> simp <;> omega

/-- An integer of at most 64 bits has a nearest double. -/
theorem ofDecimal?_isSome {negative : Bool} {n : Nat} (h : n < 2 ^ 64) :
    (ofDecimal? negative n 0).isSome := by
  have hlength : (Nat.toDigits 10 n).length ≤ 20 :=
    (Nat.length_toDigits_le_iff (by decide) (by decide)).mpr (by omega)
  have hlog : n.log2 ≤ 64 := by
    by_cases hn : n = 0
    · simp [hn]
    · exact Nat.le_of_lt ((Nat.log2_lt hn).mpr (by omega))
  unfold ofDecimal?
  simp only []
  split
  · rfl
  · rw [if_neg (by omega)]
    exact round_isSome (by simpa using (by omega : n.log2 ≤ 1022))

end Binary64

/-- `Float` takes the text of every integer that is held as one. -/
theorem floatOfSpelling_intText {i : Int} (hlow : -2 ^ 63 ≤ i) (hhigh : i < 2 ^ 64) :
    ∃ x, Builtin.floatOfSpelling (intText i) = .ok (.number (.double x)) := by
  have hsome : (Binary64.ofDecimal? (decide (i < 0)) i.natAbs 0).isSome :=
    Binary64.ofDecimal?_isSome (by omega)
  obtain ⟨x, hx⟩ := Option.isSome_iff_exists.mp hsome
  refine ⟨x, ?_⟩
  simp [Builtin.floatOfSpelling, numeral?_intText, Numeral.nearest?, Numeral.power, natOf_digits,
    hx]

end TaggedUnion
