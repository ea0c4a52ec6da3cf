import TaggedUnion.Decimal.Binary64

/-!
# The shortest decimal of a double

Among the decimals that round to a given double, the one with the fewest digits; of several with
that many digits, the nearest to the double, a tie going to the even last digit.

The search goes over the decimal grids that give the number one digit, two digits and so on up to
seventeen. If a point of a grid rounds to the double, so does one of the double's two neighbours on
that grid, so these two are the only candidates.
-/

namespace TaggedUnion

/-- `coefficient · 10 ^ exponent`. -/
structure Decimal where
  coefficient : Nat
  exponent : Int
  deriving DecidableEq, Repr, Inhabited

namespace Decimal

/-- The decimal digits of a natural, the first one first. -/
def digits (n : Nat) : List Char := Nat.toDigits 10 n

/-- The exponent of ten of the first digit of `num / den`. -/
def leadingExponent (num den : Nat) : Int :=
  if den ≤ num then ((digits (num / den)).length : Int) - 1
  else -((digits ((den + num - 1) / num - 1)).length : Int)

/-- The same number without zeros at the end of the coefficient. -/
def normalize (d : Decimal) : Decimal :=
  let trailing := ((digits d.coefficient).reverse.takeWhile (· = '0')).length
  if d.coefficient = 0 then ⟨0, 0⟩ else ⟨d.coefficient / Nat.pow 10 trailing, d.exponent + trailing⟩

end Decimal

namespace Binary64

/-- Four times the magnitude and the two ends of the magnitudes that round to it, all in the unit
`2 ^ (exponent - 2)`. The gap below is half as wide where the exponent changes. -/
def roundingInterval (x : Binary64) : Nat × Nat × Nat :=
  let middle := 4 * x.significand
  let narrow := x.significand = Nat.pow 2 52 ∧ minExponent < x.exponent
  (middle, middle - (if narrow then 1 else 2), middle + 2)

/-- Whether the decimal rounds to the magnitude of `x`. The ends of the interval do when the
significand is even. -/
def roundsTo (x : Binary64) (d : Decimal) : Bool :=
  let (_, low, high) := x.roundingInterval
  let unit := x.exponent - 2
  let left := d.coefficient * Nat.pow 10 d.exponent.toNat * Nat.pow 2 (-unit).toNat
  let scale := Nat.pow 2 unit.toNat * Nat.pow 10 (-d.exponent).toNat
  if x.significand % 2 = 0 then low * scale ≤ left && left ≤ high * scale
  else low * scale < left && left < high * scale

/-- The nearest decimal of the grid `10 ^ exponent` that rounds to `x`, if there is one. -/
def nearestOnGrid (x : Binary64) (exponent : Int) : Option Decimal :=
  let num := x.significand * Nat.pow 2 x.exponent.toNat * Nat.pow 10 (-exponent).toNat
  let den := Nat.pow 2 (-x.exponent).toNat * Nat.pow 10 exponent.toNat
  let below := num / den
  let nearest := roundQuotient num den
  let other := if nearest = below then below + 1 else below
  if x.roundsTo ⟨nearest, exponent⟩ then some ⟨nearest, exponent⟩
  else if x.roundsTo ⟨other, exponent⟩ then some ⟨other, exponent⟩
  else none

/-- The shortest decimal that rounds to the magnitude of `x`, without zeros at its end. -/
def shortest (x : Binary64) : Decimal :=
  if x.significand = 0 then ⟨0, 0⟩
  else
    let first := Decimal.leadingExponent (x.significand * Nat.pow 2 x.exponent.toNat)
      (Nat.pow 2 (-x.exponent).toNat)
    let grids := (List.range 17).map fun (n : Nat) => first - (n : Int)
    ((grids.findSome? x.nearestOnGrid).getD ⟨0, 0⟩).normalize

end Binary64

end TaggedUnion
