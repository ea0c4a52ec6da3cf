import TaggedUnion.Proofs.Json.Reading
import TaggedUnion.Proofs.Literal.Printing

/-!
# Trees in JSON text

A tree of lists and objects is written in JSON with blanks anywhere between its parts. Its scalars
are those that literals and JSON share.

* `Spells`: the texts of a tree.
* `EndsValue`: what may follow a value.
* `readScalar_string`, `readScalar_number`: scalars are read as they are written.
-/

namespace TaggedUnion.Json

open Literal (Node)

/-! ## The texts of a tree -/

/-- A text with what stands around it. -/
structure Slot where
  before : List Char
  text : List Char
  after : List Char

namespace Slot

/-- The characters of the slot. -/
def chars (slot : Slot) : List Char := slot.before ++ (slot.text ++ slot.after)

/-- There are blanks around the text. -/
def IsSpaced (slot : Slot) : Prop := Blank slot.before ∧ Blank slot.after

end Slot

/-- A name between quotes with what stands around it, a colon and a value. -/
structure Member where
  name : Slot
  value : Slot
  field : Literal.Field

namespace Member

/-- The characters of the member. -/
def chars (member : Member) : List Char :=
  member.name.before ++ ('"' :: (member.name.text ++ ('"' :: (member.name.after ++
    (':' :: member.value.chars)))))

/-- There are blanks around name and value, and the name is spelled without bare controls. -/
structure IsSpaced (member : Member) : Prop where
  name : member.name.IsSpaced
  value : member.value.IsSpaced
  quotes : Literal.Quotes member.name.text member.field.name.text.toList
  plain : ∀ c ∈ member.name.text, 32 ≤ c.toNat

end Member

/-- The texts of a tree in JSON. A number is one that JSON has, and a string holds no bare control
character. -/
inductive Spells : List Char → Node → Prop where
  | null {span : Span} : Spells ['n', 'u', 'l', 'l'] ⟨.null, span⟩
  | boolean {value : Bool} {span : Span} :
    Spells (if value then ['t', 'r', 'u', 'e'] else ['f', 'a', 'l', 's', 'e'])
      ⟨.boolean value, span⟩
  | int {n : Numeral} {span : Span} (hn : n.IsProper) (hnumber : (Number.ofNumeral? n).isSome) :
    Spells n.text ⟨.int (String.ofList n.text), span⟩
  | float {n : Numeral} {span : Span} (hn : n.IsProper)
    (hnumber : (Number.ofNumeral? n).isSome) : Spells n.text ⟨.float (String.ofList n.text), span⟩
  | string {text : List Char} {contents : String} {span : Span}
    (hquotes : Literal.Quotes text contents.toList) (hplain : ∀ c ∈ text, 32 ≤ c.toNat) :
    Spells ('"' :: (text ++ ['"'])) ⟨.string contents, span⟩
  | emptyList {gap : List Char} {span : Span} (hgap : Blank gap) :
    Spells ('[' :: (gap ++ [']'])) ⟨.list [], span⟩
  | list {first : Slot × Node} {others : List (Slot × Node)} {span : Span}
    (hspaced : ∀ item ∈ first :: others, item.1.IsSpaced)
    (hitems : ∀ item ∈ first :: others, Spells item.1.text item.2) :
    Spells ('[' :: (first.1.chars ++ (others.flatMap (fun item => ',' :: item.1.chars) ++ [']'])))
      ⟨.list ((first :: others).map Prod.snd), span⟩
  | emptyObject {gap : List Char} {span : Span} (hgap : Blank gap) :
    Spells ('\x7b' :: (gap ++ ['\x7d'])) ⟨.object [], span⟩
  | object {first : Member} {others : List Member} {span : Span}
    (hspaced : ∀ member ∈ first :: others, member.IsSpaced)
    (hvalues : ∀ member ∈ first :: others, Spells member.value.text member.field.value) :
    Spells ('\x7b' :: (first.chars ++
      (others.flatMap (fun member => ',' :: member.chars) ++ ['\x7d'])))
      ⟨.object ((first :: others).map Member.field), span⟩

/-! ## What follows a value -/

section Ends

variable {gap rest : List Char}

/-- What ends a value in front of it. -/
def EndsValue (rest : List Char) : Prop :=
  ∀ c ∈ rest.head?, isBlank c ∨ c = ',' ∨ c = ']' ∨ c = '\x7d'

theorem EndsValue.follows (h : EndsValue rest) : Numeral.Follows rest := by
  intro c hc
  have hmem : c ∈ [' ', '\n', '\t', '\r', ',', ']', '\x7d'] := by
    simpa [isBlank, or_assoc] using h c hc
  simp only [List.mem_cons, List.not_mem_nil, or_false] at hmem
  rcases hmem with rfl | rfl | rfl | rfl | rfl | rfl | rfl <;> decide

theorem endsValue_append {c : Char} (hgap : Blank gap) (hc : c = ',' ∨ c = ']' ∨ c = '\x7d') :
    EndsValue (gap ++ c :: rest) := by
  cases gap with
  | nil =>
    rintro d ⟨⟩
    exact .inr hc
  | cons d gap =>
    rintro e ⟨⟩
    exact .inl (hgap d List.mem_cons_self)

/-- Behind an item, the others and the end of the array. -/
def itemsText (others : List (Slot × Node)) (rest : List Char) : List Char :=
  others.flatMap (fun item => ',' :: item.1.chars) ++ ']' :: rest

/-- Behind a member, the others and the end of the object. -/
def membersText (others : List Member) (rest : List Char) : List Char :=
  others.flatMap (fun member => ',' :: member.chars) ++ '\x7d' :: rest

theorem endsValue_itemsText {others : List (Slot × Node)} (hgap : Blank gap) :
    EndsValue (gap ++ itemsText others rest) := by
  cases others with
  | nil => exact endsValue_append hgap (.inr (.inl rfl))
  | cons item others => exact endsValue_append hgap (.inl rfl)

theorem endsValue_membersText {others : List Member} (hgap : Blank gap) :
    EndsValue (gap ++ membersText others rest) := by
  cases others with
  | nil => exact endsValue_append hgap (.inr (.inr rfl))
  | cons member others => exact endsValue_append hgap (.inl rfl)

end Ends

/-! ## Scalars -/

section Scalars

variable {c : Char} {text rest : List Char} {node : Node}

theorem readScalar_string {contents : List Char} (hquotes : Literal.Quotes text contents)
    (hplain : ∀ c ∈ text, 32 ≤ c.toNat) :
    readScalar '"' (text ++ '"' :: rest) = .ok (.string (String.ofList contents), rest) := by
  simp [readScalar, readString_quotes hquotes hplain, Except.map]

/-- What starts as a number is read as one. -/
theorem readScalar_of_start (hstart : c = '-' ∨ c.isDigit) :
    readScalar c text = (readNumber (c :: text)).map fun (n, rest) => (.number n, rest) := by
  have hne : c ≠ 'n' ∧ c ≠ 't' ∧ c ≠ 'f' ∧ c ≠ '"' := by
    refine ⟨?_, ?_, ?_, ?_⟩ <;> rintro rfl <;> exact absurd hstart (by decide)
  simp [readScalar, hne, hstart]

theorem readScalar_number {n : Numeral} {number : Number} (hn : n.IsProper)
    (hnumber : Number.ofNumeral? n = some number) (htext : n.text = c :: text)
    (hstart : c = '-' ∨ c.isDigit) (hrest : Numeral.Follows rest) :
    readScalar c (text ++ rest) = .ok (.number number, rest) := by
  have hread := readNumber_text hn hnumber hrest
  rw [htext, List.cons_append] at hread
  rw [readScalar_of_start hstart, hread]
  rfl

/-- What starts a number is no blank and no bracket. -/
theorem not_blank_of_start (hstart : c = '-' ∨ c.isDigit) :
    isBlank c = false ∧ c ≠ ']' ∧ ¬(c = '[' ∨ c = '\x7b') := by
  refine ⟨Bool.eq_false_iff.mpr fun hblank => ?_, ?_, ?_⟩
  · have hmem : c ∈ [' ', '\n', '\t', '\r'] := by
      simpa [isBlank, or_assoc] using hblank
    simp only [List.mem_cons, List.not_mem_nil, or_false] at hmem
    rcases hmem with rfl | rfl | rfl | rfl <;> exact absurd hstart (by decide)
  · rintro rfl
    exact absurd hstart (by decide)
  · rintro (rfl | rfl) <;> exact absurd hstart (by decide)

/-- A text of a tree starts with a character that is no blank and ends no array. -/
theorem Spells.exists_cons (h : Spells text node) :
    ∃ c cs, text = c :: cs ∧ isBlank c = false ∧ c ≠ ']' := by
  cases h with
  | int hn | float hn =>
    obtain ⟨c, cs, htext, hstart⟩ := hn.text_eq_cons
    obtain ⟨hblank, hclose, -⟩ := not_blank_of_start hstart
    exact ⟨c, cs, htext, hblank, hclose⟩
  | @boolean value => cases value <;> exact ⟨_, _, rfl, rfl, by decide⟩
  | _ => exact ⟨_, _, rfl, rfl, by decide⟩

end Scalars

end TaggedUnion.Json
