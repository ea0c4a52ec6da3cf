/-!
# Double-precision numbers

A finite double is `± significand · 2 ^ exponent`, kept as exact integers, and the operations on
doubles are the exact ones followed by one rounding to the nearest double, a tie going to the even
significand.

* `Binary64.round`: the double nearest to a quotient of naturals; none when that is infinite.
* `Binary64.ofDecimal?`: the double nearest to `digits · 10 ^ exponent`.
* `Binary64.le`, `Binary64.isWhole`, `Binary64.truncate`: comparison, and doubles as integers.
-/

namespace TaggedUnion

/-- A finite double: `± significand · 2 ^ exponent`. Results of `Binary64.round` are in the
canonical form, with `significand < 2 ^ 53`, and `2 ^ 52 ≤ significand` or `exponent = -1074`. -/
structure Binary64 where
  negative : Bool
  significand : Nat
  exponent : Int
  deriving DecidableEq, Repr, Inhabited

namespace Binary64

/-- The least exponent of a double. -/
def minExponent : Int := -1074

/-- The greatest exponent of a double. -/
def maxExponent : Int := 971

/-- Zero with a sign. -/
def zero (negative : Bool) : Binary64 := ⟨negative, 0, minExponent⟩

/-- Whether the number is a zero, of either sign. -/
def isZero (x : Binary64) : Bool := x.significand = 0

/-- `num / den` to the nearest natural, a tie to the even one. -/
def roundQuotient (num den : Nat) : Nat :=
  let quotient := num / den
  let twice := 2 * (num % den)
  if twice < den then quotient
  else if den < twice then quotient + 1
  else quotient + quotient % 2

/-- The quotient `num / den / 2 ^ exponent` to the nearest natural. -/
def scaled (num den : Nat) (exponent : Int) : Nat :=
  roundQuotient (num * Nat.pow 2 (-exponent).toNat) (den * Nat.pow 2 exponent.toNat)

/-- The exponent at which `num / den` has a significand of 53 bits, not below `minExponent`. -/
def exponentOf (num den : Nat) : Int :=
  let guess : Int := (num.log2 : Int) - (den.log2 : Int) - 52
  let enough := den * Nat.pow 2 (guess + 52).toNat ≤ num * Nat.pow 2 (-(guess + 52)).toNat
  max minExponent (if enough then guess else guess - 1)

/-- The double nearest to `± num / den`, a tie to the even significand. There is none when the
magnitude rounds to `2 ^ 1024` or more. -/
def round (negative : Bool) (num den : Nat) : Option Binary64 :=
  if num = 0 then some (zero negative)
  else
    let exponent := exponentOf num den
    let significand := scaled num den exponent
    let rounded : Binary64 :=
      if significand = Nat.pow 2 53 then ⟨negative, Nat.pow 2 52, exponent + 1⟩
      else ⟨negative, significand, exponent⟩
    if rounded.exponent ≤ maxExponent then some rounded else none

/-- The double nearest to a natural below `2 ^ 1023`. -/
def ofNat (n : Nat) : Binary64 := (round false n 1).getD (zero false)

/-- The product, rounded; none when it overflows. -/
def mul? (x y : Binary64) : Option Binary64 :=
  let exponent := x.exponent + y.exponent
  round (x.negative != y.negative) (x.significand * y.significand * Nat.pow 2 exponent.toNat)
    (Nat.pow 2 (-exponent).toNat)

/-- The quotient by a number that is not zero, rounded; none when it overflows. -/
def div? (x y : Binary64) : Option Binary64 :=
  let exponent := x.exponent - y.exponent
  round (x.negative != y.negative) (x.significand * Nat.pow 2 exponent.toNat)
    (y.significand * Nat.pow 2 (-exponent).toNat)

/-- The double nearest to `± digits · 10 ^ exponent`; none when it overflows. Numbers below
`10 ^ -324` round to zero and numbers from `10 ^ 309` on overflow, so no larger power of ten is
ever computed. -/
def ofDecimal? (negative : Bool) (digits : Nat) (exponent : Int) : Option Binary64 :=
  let magnitude := exponent + (Nat.toDigits 10 digits).length
  if digits = 0 ∨ magnitude ≤ -324 then some (zero negative)
  else if 310 ≤ magnitude then none
  else round negative (digits * Nat.pow 10 exponent.toNat) (Nat.pow 10 (-exponent).toNat)

/-- The numerator of the number as a quotient. -/
def numerator (x : Binary64) : Int :=
  let magnitude := x.significand * Nat.pow 2 x.exponent.toNat
  if x.negative then -magnitude else magnitude

/-- The denominator of the number as a quotient, a power of two. -/
def denominator (x : Binary64) : Nat := Nat.pow 2 (-x.exponent).toNat

/-- Whether the number is at most another one. -/
def le (x y : Binary64) : Bool := x.numerator * y.denominator ≤ y.numerator * x.denominator

/-- Whether the number has no fraction. -/
def isWhole (x : Binary64) : Bool := x.numerator % x.denominator = 0

/-- The integer that is left when the fraction is cut off. -/
def truncate (x : Binary64) : Int := x.numerator.tdiv x.denominator

end Binary64

end TaggedUnion
