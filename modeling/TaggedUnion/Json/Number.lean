import TaggedUnion.Decimal.Numeral
import TaggedUnion.Json.Basic
import TaggedUnion.Json.SyntaxError

/-!
# Numbers in JSON text

* `Number.ofNumeral?`: the number that a numeral stands for. An integer of 64 bits stays exact;
  anything else becomes a double, computed from the first digits that fit 64 bits and a power of ten
  in two roundings. A number beyond the doubles is refused.
* `Json.readNumeral`, `Json.readNumber`: read the number at the start of a text and say what is
  wrong with it.
-/

namespace TaggedUnion

namespace Binary64

/-- The double nearest to a power of ten up to `10 ^ 308`. -/
def powerOfTen (n : Nat) : Binary64 := (ofDecimal? false 1 n).getD (zero false)

/-- `x · 10 ^ exponent` with the power rounded first; none when it overflows. A zero stays zero
under any power. -/
def scaleUp? (x : Binary64) (exponent : Nat) : Option Binary64 :=
  if exponent ≤ 308 then x.mul? (powerOfTen exponent) else if x.isZero then some x else none

/-- `x / 10 ^ exponent`, at most 308 powers in one rounding. -/
def scaleDown (x : Binary64) (exponent : Nat) : Binary64 :=
  if exponent ≤ 308 then (x.div? (powerOfTen exponent)).getD x
  else if x.isZero then x
  else scaleDown ((x.div? (powerOfTen 308)).getD x) (exponent - 308)
termination_by exponent

end Binary64

namespace Number

/-- The number below which an unsigned word of 64 bits stays. -/
def wordLimit : Nat := 18446744073709551616

/-- The leading digits of a number that fit a word, and the power of ten by which they fall short:
positive for the digits of the whole part that were left out. -/
structure Leading where
  digits : Nat
  shift : Int
  full : Bool
  deriving DecidableEq, Repr

namespace Leading

/-- Takes one more digit of the whole part. Once a digit did not fit, all others are left out. -/
def addWhole (l : Leading) (c : Char) : Leading :=
  let next := 10 * l.digits + Numeral.digitValue c
  if !l.full && next < wordLimit then { l with digits := next }
  else { l with shift := l.shift + 1, full := true }

/-- Takes one more digit of the fraction. Once a digit did not fit, all others are left out. -/
def addFraction (l : Leading) (c : Char) : Leading :=
  let next := 10 * l.digits + Numeral.digitValue c
  if !l.full && next < wordLimit then { l with digits := next, shift := l.shift - 1 }
  else { l with full := true }

/-- The leading digits of a numeral. The fraction is tried anew after a whole part that did not
fit. -/
def ofNumeral (n : Numeral) : Leading :=
  let whole := n.whole.foldl addWhole ⟨0, 0, false⟩
  let all := n.fraction.foldl addFraction { whole with full := false }
  { all with full := whole.full, shift := all.shift + n.power }

end Leading

/-- The double for leading digits and a power of ten. -/
def scaled? (negative : Bool) (digits : Nat) (shift : Int) : Option Binary64 :=
  let magnitude? :=
    if 0 ≤ shift then (Binary64.ofNat digits).scaleUp? shift.toNat
    else some ((Binary64.ofNat digits).scaleDown (-shift).toNat)
  magnitude?.map fun x => { x with negative := negative }

/-- The number that a numeral stands for; none when it is beyond the doubles. A negative zero and
an integer beyond 64 bits become doubles. -/
def ofNumeral? (n : Numeral) : Option Number :=
  let leading := Leading.ofNumeral n
  let isSigned := 0 < leading.digits && 2 * leading.digits ≤ wordLimit
  if n.isInteger && !leading.full && (!n.negative || isSigned) then
    some (integer (if n.negative then -(leading.digits : Int) else leading.digits))
  else (scaled? n.negative leading.digits leading.shift).map double

end Number

namespace Json

/-- The greatest exponent that is looked at; a larger one is out of range before it ends. -/
def maxExponentDigits : Nat := 2147483647

/-- How many digits of an exponent are read until it is too large; all if it never is. -/
def exponentReach (digits : List Char) : Nat :=
  (((List.range (digits.length + 1)).find? fun k =>
    maxExponentDigits < Numeral.natOf (digits.take k))).getD digits.length

/-- What is wrong with the text behind the longest numeral, if the numeral should have gone on. -/
def numeralFault? (n : Numeral) (rest : List Char) : Option Fault :=
  match rest with
  | [] => none
  | c :: cs =>
    if n.exponent.isSome then none
    else if c = 'e' ∨ c = 'E' then
      match cs with
      | [] => some (.before .endInValue [])
      | sign :: digits =>
        let digits := if sign = '+' ∨ sign = '-' then digits else cs
        if digits.isEmpty then some (.before .endInValue []) else some (.on .invalidNumber digits)
    else if n.fraction.isEmpty ∧ c = '.' then
      if cs.isEmpty then some (.before .endInValue []) else some (.on .invalidNumber cs)
    else if n.isInteger ∧ c.isDigit then some (.on .invalidNumber (c :: cs))
    else none

/-- Reads the numeral at the start of a text and looks whether it is complete. -/
def readNumeral (cs : List Char) : Except Fault (Numeral × List Char) :=
  match Numeral.scan cs with
  | none =>
    let cs := if cs.head? = some '-' then cs.drop 1 else cs
    .error (if cs.isEmpty then .before .endInValue [] else .on .invalidNumber cs)
  | some (n, rest) =>
    match numeralFault? n rest with
    | some fault => .error fault
    | none => .ok (n, rest)

/-- Reads the number at the start of a text. -/
def readNumber (cs : List Char) : Except Fault (Number × List Char) :=
  match readNumeral cs with
  | .error fault => .error fault
  | .ok (n, rest) =>
    match Number.ofNumeral? n with
    | some value => .ok (value, rest)
    | none =>
      let unread := (n.exponent.map fun e => e.digits.drop (exponentReach e.digits)).getD []
      .error (.before .numberOutOfRange (unread ++ rest))

theorem readNumeral_length {cs rest : List Char} {n : Numeral}
    (h : readNumeral cs = .ok (n, rest)) : rest.length < cs.length := by
  unfold readNumeral at h
  split at h
  · simp at h
  · rename_i numeral after hscan
    obtain ⟨happ, hne⟩ := Numeral.text_append_of_scan hscan
    have := List.length_pos_iff.mpr hne
    split at h
    · simp at h
    · simp only [Except.ok.injEq, Prod.mk.injEq] at h
      rw [← happ, ← h.2, List.length_append]
      omega

theorem readNumber_length {cs rest : List Char} {n : Number} (h : readNumber cs = .ok (n, rest)) :
    rest.length < cs.length := by
  unfold readNumber at h
  split at h
  · simp at h
  · rename_i hn
    split at h
    · simp only [Except.ok.injEq, Prod.mk.injEq] at h
      rw [← h.2]
      exact readNumeral_length hn
    · simp at h

end Json

end TaggedUnion
