import Mathlib.Data.Nat.Digits.Defs
import TaggedUnion.Proofs.Coercion.Numbers
import TaggedUnion.Proofs.Literal.Pattern

/-!
# The scalar Int

`Int` takes the integers of 32 bits with a sign, whichever way they are held or written.

* `Numeral.denoted`: the integer that digits with or without a minus sign denote.
* `intOfNumber_eq_ok_iff`, `intOfSpelling_eq_ok_iff`: what `Int` makes of a number and of the
  spelling of an integer.
* `int32?_ofNat`: a word beyond the signed ones may be taken for the double nearest to it.
* `int_exact`: what `Int` takes and what it makes of it.
-/

namespace TaggedUnion

namespace Numeral

/-! ## Spelled integers -/

/-- The integer that digits with or without a minus sign denote, each digit by its place. -/
def denoted : List Char → Int
  | '-' :: digits => -(Nat.ofDigits 10 (digits.reverse.map digitValue) : Nat)
  | digits => (Nat.ofDigits 10 (digits.reverse.map digitValue) : Nat)

theorem denoted_of_head? {digits : List Char} (h : digits.head? ≠ some '-') :
    denoted digits = (Nat.ofDigits 10 (digits.reverse.map digitValue) : Nat) := by
  unfold denoted
  split
  · simp at h
  · rfl

theorem natOf_eq_ofDigits (digits : List Char) :
    natOf digits = Nat.ofDigits 10 (digits.reverse.map digitValue) := by
  induction digits using List.reverseRecOn with
  | nil => rfl
  | append_singleton digits c ih =>
    rw [List.reverse_concat, List.map_cons, Nat.ofDigits_cons, ← ih, natOf, List.foldl_concat]
    exact Nat.add_comm _ _

/-- An integer denotes its whole part with the sign. -/
theorem denoted_text {n : Numeral} (hn : n.IsProper) (hint : n.isInteger) :
    denoted n.text = n.wholeValue := by
  obtain ⟨negative, whole, fraction, exponent⟩ := n
  simp only [isInteger, Bool.and_eq_true, List.isEmpty_iff, Option.isNone_iff_eq_none] at hint
  obtain ⟨rfl, rfl⟩ := hint
  have hhead : whole.head? ≠ some '-' := by
    rcases hn.whole with rfl | ⟨c, cs, rfl, -, hdigits⟩
    · decide
    · rintro ⟨⟩
      exact absurd (hdigits '-' List.mem_cons_self) (by decide)
  cases negative with
  | true => simp [text, denoted, wholeValue, natOf_eq_ofDigits]
  | false => simp [text, denoted_of_head? hhead, wholeValue, natOf_eq_ofDigits]

end Numeral

namespace Builtin

/-- The word of an integer token is the numeral of the integer that it denotes. -/
theorem exists_numeral_of_mem_pattern {text : String}
    (h : text.toList ∈ Literal.TokenKind.int.pattern) :
    ∃ n, numeral? text = some n ∧ n.isInteger ∧ n.wholeValue = Numeral.denoted text.toList := by
  obtain ⟨n, hn, hint, htext⟩ := Literal.Pattern.mem_integer_iff.mp h
  refine ⟨n, numeral?_eq_some_iff.mpr ⟨hn, ?_⟩, hint, ?_⟩
  · rw [htext, String.ofList_toList]
  · rw [← htext, Numeral.denoted_text hn hint]

theorem intOfSpelling_eq_ok_iff {text : String} {out : Json}
    (h : text.toList ∈ Literal.TokenKind.int.pattern) :
    intOfSpelling text = .ok out ↔
      isInt32 (Numeral.denoted text.toList) ∧
        out = .number (.integer (Numeral.denoted text.toList)) := by
  obtain ⟨n, hnumeral, hint, hvalue⟩ := exists_numeral_of_mem_pattern h
  rw [intOfSpelling, hnumeral, Option.filter_some_pos hint, ← hvalue]
  cases hfits : isInt32 n.wholeValue <;> simp [hfits, eq_comm (a := out)]

/-! ## Numbers -/

theorem intOfNumber_eq_ok_iff {n : Number} {out : Json} :
    intOfNumber n = .ok out ↔ ∃ i, int32? n = some i ∧ out = .number (.integer i) := by
  cases hint : int32? n <;> cases n <;> simp [intOfNumber, hint, eq_comm (a := out)]

/-- **A word as a double.** A word that is too large for a signed one is no integer of 32 bits, also
not after it has been rounded to a double. -/
theorem int32?_ofNat {k : Nat} (hlow : 2 ^ 63 ≤ k) (hhigh : k < 2 ^ 64) :
    int32? (.double (.ofNat k)) = int32? (.integer k) := by
  -- Rounding does not take a word of 64 bits below half its size.
  have hnear := (Binary64.approximates_ofNat (by omega) hhigh).le
  have hlarge : (2 : ℚ) ^ 62 ≤ (Binary64.ofNat k).magnitude := by
    have hk : (2 : ℚ) ^ 63 ≤ k := by exact_mod_cast hlow
    linarith
  have hnone : int32? (.integer k) = none := by
    rw [int32?_integer, if_neg]
    rw [isInt32_iff]
    omega
  rw [hnone, Option.eq_none_iff_forall_ne_some]
  intro i hi
  obtain ⟨hvalue, hrange⟩ := int32?_eq_some_iff.mp hi
  have habs : |(i : ℚ)| = (Binary64.ofNat k).magnitude := by
    rw [← hvalue, Number.value, Binary64.value]
    split <;> simp [abs_of_nonneg Binary64.magnitude_nonneg]
  rw [← habs] at hlarge
  have hlarge : (2 : Int) ^ 62 ≤ |i| := by exact_mod_cast hlarge
  rcases abs_cases i with ⟨heq, -⟩ | ⟨heq, -⟩ <;> omega

/-! ## The scalar -/

/-- **`Int` is exact.** A number is taken if it equals an integer of 32 bits with a sign, and
becomes that integer; so is a word that has been rounded to a double first. The spelling of an
integer is taken if the integer that it denotes has 32 bits, and becomes that integer. Nothing else
is taken. -/
theorem int_exact :
    (∀ (n : Number) (out : Json), int.parseValue (.number n) = .ok out ↔
        ∃ i : Int, n.value = i ∧ -2 ^ 31 ≤ i ∧ i ≤ 2 ^ 31 - 1 ∧ out = .number (.integer i)) ∧
      (∀ k : Nat, 2 ^ 63 ≤ k → k < 2 ^ 64 →
        int32? (.double (.ofNat k)) = int32? (.integer k)) ∧
      (∀ (source : Source) (text : String) (span : Span) (out : Json),
        text.toList ∈ Literal.TokenKind.int.pattern →
          (int.parseLiteral source ⟨.int text, span⟩ = .ok out ↔
            -2 ^ 31 ≤ Numeral.denoted text.toList ∧ Numeral.denoted text.toList ≤ 2 ^ 31 - 1 ∧
              out = .number (.integer (Numeral.denoted text.toList)))) ∧
      (∀ value : Json, value.kind ≠ .number → ∃ error, int.parseValue value = .error error) ∧
      ∀ (source : Source) (node : Literal.Node), node.kind ≠ .int →
        ∃ error, int.parseLiteral source node = .error error := by
  refine ⟨fun n out => ?_, fun k => int32?_ofNat, fun source text span out h => ?_,
    fun value hkind => ?_, fun source node hkind => ?_⟩
  · have hrange : ∀ i : Int, i < 2 ^ 31 ↔ i ≤ 2 ^ 31 - 1 := by omega
    simp only [parseValue, intOfNumber_eq_ok_iff, int32?_eq_some_iff, hrange, and_assoc]
  · rw [parseLiteral, intOfSpelling_eq_ok_iff h, isInt32_iff, and_assoc]
  · cases value with
    | number => exact absurd rfl hkind
    | _ => exact ⟨_, rfl⟩
  · obtain ⟨said, span⟩ := node
    cases said with
    | int => exact absurd rfl hkind
    | _ => exact ⟨_, rfl⟩

/-- The least integer of 32 bits is taken as a double and as it is spelled. -/
theorem int_exact_least :
    int.parseValue (.number (.double ⟨true, 2 ^ 52, -21⟩)) =
        .ok (.number (.integer (-2147483648))) ∧
      "-2147483648".toList ∈ Literal.TokenKind.int.pattern ∧
      int.parseLiteral ⟨"", "-2147483648"⟩ ⟨.int "-2147483648", ⟨0, 11⟩⟩ =
        .ok (.number (.integer (-2147483648))) := by
  obtain ⟨hnumber, -, hspelling, -⟩ := int_exact
  have hvalue : Number.value (.double ⟨true, 2 ^ 52, -21⟩) = (-2147483648 : Int) := by
    norm_num [Number.value, Binary64.value, Binary64.magnitude]
  have hnumeral : numeral? "-2147483648" =
      some ⟨true, ['2', '1', '4', '7', '4', '8', '3', '6', '4', '8'], [], none⟩ := by decide
  have hword : "-2147483648".toList ∈ Literal.TokenKind.int.pattern :=
    Literal.Pattern.mem_integer_iff.mpr ⟨_, (numeral?_eq_some_iff.mp hnumeral).1, rfl, rfl⟩
  have hdenoted : Numeral.denoted "-2147483648".toList = -2147483648 := by decide +kernel
  refine ⟨(hnumber _ _).mpr ⟨_, hvalue, by decide, by decide, rfl⟩, hword,
    (hspelling _ _ _ _ hword).mpr ?_⟩
  rw [hdenoted]
  exact ⟨by decide, by decide, rfl⟩

end Builtin

end TaggedUnion
