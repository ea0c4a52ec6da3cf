import TaggedUnion.Literal.Error
import TaggedUnion.Text.Escape

/-!
# The contents of a quoted string

`decode` replaces the escapes between the quotes of a string token. A bad escape is reported with
its text: the backslash and one byte for an unknown letter, or five for a bad character code.
-/

namespace TaggedUnion.Literal

/-- Reports an escape as bad. It is quoted up to `size` bytes long, or to the end of the string.
The quotation cannot end inside a character. `position` is where the backslash stands. -/
def badEscape (position size : Nat) (cs : List Char) : Stop :=
  let size := min size (Text.byteSize cs)
  match Text.takeBytes? size cs with
  | some sequence => .error (.invalidEscape (String.ofList sequence) ⟨position, position + size⟩)
  | none => .abort

/-- The contents of a string written as `cs`, which stands at `position`. -/
def decode (position : Nat) (cs : List Char) : Except Stop (List Char) :=
  match cs with
  | [] => .ok []
  | c :: rest =>
    if c ≠ '\\' then (decode (position + c.utf8Size) rest).map (c :: ·)
    else
      match rest with
      | [] => .error (badEscape position 1 cs)
      | letter :: rest =>
        match Text.simpleEscape? letter with
        | some plain => (decode (position + 2) rest).map (plain :: ·)
        | none =>
          if letter ≠ 'u' then .error (badEscape position 2 cs)
          else
            match h : Text.readHex? rest with
            | none => .error (badEscape position 6 cs)
            | some (code, rest) =>
              have := Text.readHex?_length h
              match Text.charOfCode? code with
              | none => .error (badEscape position 6 cs)
              | some plain => (decode (position + 6) rest).map (plain :: ·)
termination_by cs.length
decreasing_by all_goals simp_all <;> omega

/-- The contents of a string token, whose first and last characters are its quotes. -/
def Token.contents (token : Token) : Except Stop String :=
  (decode (token.span.start + 1) (token.text.drop 1).dropLast).map String.ofList

end TaggedUnion.Literal
