/-!
# Names

The rule that types, fields, enum values and unions share: a letter or underscore, then letters,
digits and underscores. Letters and digits are the ASCII ones.
-/

namespace TaggedUnion.Text

/-- A character that a name may start with. -/
def isNameStart (c : Char) : Bool := c = '_' || c.isAlpha

/-- A character that a name may go on with. -/
def isNameContinue (c : Char) : Bool := c = '_' || c.isAlphanum

/-- Whether the characters form a name. -/
def isNameChars : List Char → Bool
  | [] => false
  | c :: cs => isNameStart c && cs.all isNameContinue

/-- Whether the text is a name. -/
def isName (text : String) : Bool := isNameChars text.toList

theorem isNameContinue_of_isNameStart {c : Char} (h : isNameStart c) : isNameContinue c := by
  simp only [isNameStart, isNameContinue, Char.isAlphanum, Bool.or_eq_true] at h ⊢
  rcases h with h | h
  · exact .inl h
  · exact .inr (.inl h)

end TaggedUnion.Text
