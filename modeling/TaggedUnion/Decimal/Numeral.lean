import TaggedUnion.Decimal.Binary64

/-!
# Numerals

The written form of a number: an optional minus sign, a whole part without a zero in front,
optionally a point with digits, and optionally an exponent. JSON text and literals share it.

* `Numeral.scan`: the longest numeral at the start of a text.
* `Numeral.text`: the characters of a numeral, which `scan` takes off the text.
* `Numeral.nearest?`: the double nearest to the number.
-/

namespace TaggedUnion

/-- The part of a numeral from the letter `e` on. -/
structure Exponent where
  mark : Char
  sign : Option Char
  digits : List Char
  deriving DecidableEq, Repr

/-- A number as it is written. A numeral without a point has no digit in `fraction`. -/
structure Numeral where
  negative : Bool
  whole : List Char
  fraction : List Char
  exponent : Option Exponent
  deriving DecidableEq, Repr

namespace Exponent

/-- The characters of the exponent. -/
def text (e : Exponent) : List Char := e.mark :: (e.sign.toList ++ e.digits)

/-- Whether the exponent has a minus sign. -/
def negative (e : Exponent) : Bool := e.sign = some '-'

/-- The digits after an optional sign and what follows, if there is a digit. -/
def scanDigits (mark : Char) (sign : Option Char) (cs : List Char) :
    Option (Exponent × List Char) :=
  let digits := cs.takeWhile Char.isDigit
  if digits.isEmpty then none else some (⟨mark, sign, digits⟩, cs.dropWhile Char.isDigit)

/-- The exponent at the start of a text: the letter, an optional sign and at least one digit. -/
def scan : List Char → Option (Exponent × List Char)
  | [] => none
  | mark :: cs =>
    if mark = 'e' ∨ mark = 'E' then
      match cs with
      | [] => none
      | sign :: rest =>
        if sign = '+' ∨ sign = '-' then scanDigits mark (some sign) rest
        else scanDigits mark none (sign :: rest)
    else none

end Exponent

namespace Numeral

/-- The characters of the numeral. -/
def text (n : Numeral) : List Char :=
  (if n.negative then ['-'] else []) ++ n.whole ++
    (if n.fraction.isEmpty then [] else '.' :: n.fraction) ++
    (n.exponent.map Exponent.text).getD []

/-- Whether the numeral is an integer: it has neither a point nor an exponent. -/
def isInteger (n : Numeral) : Bool := n.fraction.isEmpty && n.exponent.isNone

/-- The whole part at the start of a text, and what follows: a single zero, or digits of which the
first is not zero. -/
def scanWhole : List Char → Option (List Char × List Char)
  | [] => none
  | c :: cs =>
    if c = '0' then some (['0'], cs)
    else if c.isDigit then some (c :: cs.takeWhile Char.isDigit, cs.dropWhile Char.isDigit)
    else none

/-- The digits after a point at the start of a text, and what follows; no digits unless the point
has one behind it. -/
def scanFraction : List Char → List Char × List Char
  | [] => ([], [])
  | c :: cs =>
    let digits := cs.takeWhile Char.isDigit
    if c = '.' ∧ !digits.isEmpty then (digits, cs.dropWhile Char.isDigit) else ([], c :: cs)

/-- The longest numeral without a sign at the start of a text, and what follows. -/
def scanUnsigned (negative : Bool) (cs : List Char) : Option (Numeral × List Char) :=
  (scanWhole cs).map fun (whole, afterWhole) =>
    let (fraction, afterFraction) := scanFraction afterWhole
    match Exponent.scan afterFraction with
    | some (exponent, rest) => (⟨negative, whole, fraction, some exponent⟩, rest)
    | none => (⟨negative, whole, fraction, none⟩, afterFraction)

/-- The longest numeral at the start of a text, and what follows. -/
def scan : List Char → Option (Numeral × List Char)
  | [] => none
  | c :: cs => if c = '-' then scanUnsigned true cs else scanUnsigned false (c :: cs)

/-- The value of one decimal digit. -/
def digitValue (c : Char) : Nat := c.toNat - '0'.toNat

/-- The natural that digits denote. -/
def natOf (digits : List Char) : Nat := digits.foldl (fun n c => 10 * n + digitValue c) 0

/-- The power of ten that the exponent stands for. -/
def power (n : Numeral) : Int :=
  match n.exponent with
  | none => 0
  | some e => if e.negative then -(natOf e.digits : Int) else natOf e.digits

/-- The double nearest to the number; none when it overflows. -/
def nearest? (n : Numeral) : Option Binary64 :=
  Binary64.ofDecimal? n.negative (natOf (n.whole ++ n.fraction)) (n.power - n.fraction.length)

/-- The integer that the whole part with the sign denotes. -/
def wholeValue (n : Numeral) : Int := if n.negative then -(natOf n.whole : Int) else natOf n.whole

/-! ## What is scanned off -/

theorem text_append_of_scanWhole {cs whole rest : List Char}
    (h : scanWhole cs = some (whole, rest)) :
    whole ++ rest = cs ∧ whole ≠ [] := by
  cases cs with
  | nil => simp [scanWhole] at h
  | cons c cs =>
    simp only [scanWhole] at h
    split at h
    · simp only [Option.some.injEq, Prod.mk.injEq] at h
      obtain ⟨rfl, rfl⟩ := h
      simp_all
    · split at h
      · simp only [Option.some.injEq, Prod.mk.injEq] at h
        obtain ⟨rfl, rfl⟩ := h
        simp
      · simp at h

theorem scanFraction_append (cs : List Char) :
    (if (scanFraction cs).1.isEmpty then [] else '.' :: (scanFraction cs).1) ++
      (scanFraction cs).2 = cs := by
  cases cs with
  | nil => simp [scanFraction]
  | cons c cs =>
    simp only [scanFraction]
    split
    · rename_i h
      have h2 : (cs.takeWhile Char.isDigit).isEmpty = false := by simpa using h.2
      simp [h.1, h2]
    · simp

theorem text_append_of_scanExponent {cs rest : List Char} {e : Exponent}
    (h : Exponent.scan cs = some (e, rest)) : e.text ++ rest = cs := by
  have hd : ∀ {mark sign cs e rest}, Exponent.scanDigits mark sign cs = some (e, rest) →
      e.text ++ rest = mark :: (sign.toList ++ cs) := by
    intro mark sign cs e rest h
    simp only [Exponent.scanDigits] at h
    split at h
    · simp at h
    · simp only [Option.some.injEq, Prod.mk.injEq] at h
      obtain ⟨rfl, rfl⟩ := h
      simp [Exponent.text]
  cases cs with
  | nil => simp [Exponent.scan] at h
  | cons mark cs =>
    simp only [Exponent.scan] at h
    split at h
    · cases cs with
      | nil => simp at h
      | cons c cs =>
        simp only at h
        split at h <;> simpa using hd h
    · simp at h

/-- A scanned numeral is what the text starts with. -/
theorem text_append_of_scan {cs rest : List Char} {n : Numeral} (h : scan cs = some (n, rest)) :
    n.text ++ rest = cs ∧ n.text ≠ [] := by
  have hu : ∀ {negative cs n rest}, scanUnsigned negative cs = some (n, rest) →
      n.text ++ rest = (if negative then ['-'] else []) ++ cs ∧ n.text ≠ [] := by
    intro negative cs n rest h
    simp only [scanUnsigned, Option.map_eq_some_iff] at h
    obtain ⟨⟨whole, after⟩, hw, h⟩ := h
    obtain ⟨hw, hne⟩ := text_append_of_scanWhole hw
    have hf := scanFraction_append after
    split at h
    · rename_i e r he
      simp only [Prod.mk.injEq] at h
      obtain ⟨rfl, rfl⟩ := h
      have he := text_append_of_scanExponent he
      refine ⟨?_, by simp [text, hne]⟩
      simp only [text, Option.map_some, Option.getD_some, List.append_assoc]
      rw [he, hf, hw]
    · simp only [Prod.mk.injEq] at h
      obtain ⟨rfl, rfl⟩ := h
      refine ⟨?_, by simp [text, hne]⟩
      simp only [text, Option.map_none, Option.getD_none, List.append_assoc, List.nil_append]
      rw [hf, hw]
  cases cs with
  | nil => simp [scan] at h
  | cons c cs =>
    simp only [scan] at h
    split at h
    · have := hu h
      simp_all
    · simpa using hu h

end Numeral

end TaggedUnion
