import TaggedUnion.Schema.Error
import TaggedUnion.Text.Blank
import TaggedUnion.Text.Name

/-!
# Type references

The written form of an input type: a name, `[T]` for a list, `T!` for a type without null. Blanks
may stand between the marks and names. A type cannot be made non-null twice.
-/

namespace TaggedUnion

theorem Text.trim_length (cs : List Char) : (Text.trim cs).length ≤ cs.length := by
  simp only [Text.trim, Text.trimEnd, List.length_reverse]
  have h1 := (List.dropWhile_suffix Text.isBlank
    (l := (cs.dropWhile Text.isBlank).reverse)).length_le
  have h2 := (List.dropWhile_suffix Text.isBlank (l := cs)).length_le
  simp only [List.length_reverse] at h1
  omega

namespace InputType

/-- The input type that a text refers to. An error quotes the part of the text that is wrong. -/
def ofReference (cs : List Char) : Except SchemaError InputType :=
  let invalid := SchemaError.invalidTypeRef (String.ofList cs)
  match h : Text.trim cs with
  | [] => .error invalid
  | c :: rest =>
    have : rest.length < cs.length := by
      have := Text.trim_length cs
      rw [h, List.length_cons] at this
      omega
    if (c :: rest).getLast? = some '!' then
      match ofReference (c :: rest).dropLast with
      | .error error => .error error
      | .ok inner => if inner.isNonNull then .error invalid else .ok (.nonNull inner)
    else if c = '[' then
      if rest.getLast? = some ']' then (ofReference rest.dropLast).map .list else .error invalid
    else if Text.isNameChars (c :: rest) then .ok (.reference (String.ofList (c :: rest)))
    else .error invalid
termination_by cs.length
decreasing_by all_goals simp_all <;> omega

/-- The input type that a text refers to. -/
def parse (text : String) : Except SchemaError InputType := ofReference text.toList

/-- The name inside all lists and non-null types, if the type was read from a reference. -/
def innermostName : InputType → String
  | named type => type.name
  | reference name => name
  | list item => item.innermostName
  | nonNull inner => inner.innermostName

end InputType

end TaggedUnion
