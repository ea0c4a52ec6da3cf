import TaggedUnion.Decimal.Numeral
import TaggedUnion.Literal.Error
import TaggedUnion.Text.Name

/-!
# Splitting a literal into tokens

Blanks, commas and comments may stand between tokens and are skipped. A token is the longest one
that the text goes on with.

* `Token.scan`: the longest token at the start of a text.
* `tokenize`: the tokens of a text.
-/

namespace TaggedUnion.Literal

/-- A character that may stand between tokens: a blank or a comma. -/
def isIgnored (c : Char) : Bool := c = ' ' || c = '\t' || c = '\r' || c = '\n' || c = ','

/-- The string from behind its opening quote: its characters up to and with the closing quote, and
what follows. Without a closing quote on the line there is only the part before the end of the
line, or before a backslash at the end of the line. -/
def scanQuoted : List Char → Except (List Char) (List Char × List Char)
  | [] => .error []
  | c :: rest =>
    if c = '"' then .ok ([c], rest)
    else if c = '\n' then .error []
    else if c = '\\' then
      match rest with
      | [] => .error []
      | d :: rest =>
        if d = '\n' then .error []
        else
          match scanQuoted rest with
          | .error part => .error (c :: d :: part)
          | .ok (text, rest) => .ok (c :: d :: text, rest)
    else
      match scanQuoted rest with
      | .error part => .error (c :: part)
      | .ok (text, rest) => .ok (c :: text, rest)

/-- The kind of a token that is a single mark. -/
def mark? (c : Char) : Option TokenKind :=
  if c = '\x7b' then some .braceOpen
  else if c = '\x7d' then some .braceClose
  else if c = '[' then some .bracketOpen
  else if c = ']' then some .bracketClose
  else if c = ':' then some .colon
  else none

/-- The longest token at the start of a text: its kind, its characters and what follows. Where no
token starts, the characters that stand in its place. -/
def Token.scan (c : Char) (rest : List Char) :
    Except (List Char) (TokenKind × List Char × List Char) :=
  match mark? c with
  | some kind => .ok (kind, [c], rest)
  | none =>
    if Text.isNameStart c then
      .ok (.name, c :: rest.takeWhile Text.isNameContinue, rest.dropWhile Text.isNameContinue)
    else if c = '"' then
      match scanQuoted rest with
      | .error part => .error (c :: part)
      | .ok (text, rest) => .ok (.string, c :: text, rest)
    else
      match Numeral.scan (c :: rest) with
      | some (n, rest) => .ok (if n.isInteger then .int else .float, n.text, rest)
      | none => .error [c]

theorem scanQuoted_append {cs text rest : List Char} (h : scanQuoted cs = .ok (text, rest)) :
    text ++ rest = cs := by
  fun_induction scanQuoted cs generalizing text rest <;> simp_all <;> grind

theorem Token.scan_append {c : Char} {cs text rest : List Char} {kind : TokenKind}
    (h : Token.scan c cs = .ok (kind, text, rest)) : text ++ rest = c :: cs ∧ text ≠ [] := by
  unfold Token.scan at h
  split at h
  · cases h; simp
  · split at h
    · cases h; simp
    · split at h
      · split at h
        · simp at h
        · rename_i hq
          cases h
          simp [scanQuoted_append hq]
      · split at h
        · rename_i hn
          cases h
          exact Numeral.text_append_of_scan hn
        · simp at h

theorem Token.scan_length {c : Char} {cs text rest : List Char} {kind : TokenKind}
    (h : Token.scan c cs = .ok (kind, text, rest)) : rest.length < (c :: cs).length := by
  obtain ⟨happ, hne⟩ := Token.scan_append h
  rw [← happ, List.length_append]
  have := List.length_pos_iff.mpr hne
  omega

/-- The tokens of the text `cs` that starts at `position`. -/
def tokenizeFrom (position : Nat) (cs : List Char) : Except SyntaxError (List Token) :=
  match cs with
  | [] => .ok []
  | c :: rest =>
    if isIgnored c then tokenizeFrom (position + 1) rest
    else if c = '#' then
      have := (List.dropWhile_suffix (l := rest) (· ≠ '\n')).length_le
      tokenizeFrom (position + 1 + Text.byteSize (rest.takeWhile (· ≠ '\n')))
        (rest.dropWhile (· ≠ '\n'))
    else
      match h : Token.scan c rest with
      | .error part =>
        .error (.unrecognized (String.ofList part) ⟨position, position + Text.byteSize part⟩)
      | .ok (kind, text, after) =>
        have := Token.scan_length h
        let stop := position + Text.byteSize text
        match tokenizeFrom stop after with
        | .error error => .error error
        | .ok tokens => .ok (⟨kind, ⟨position, stop⟩, text⟩ :: tokens)
termination_by cs.length
decreasing_by
  · exact Nat.lt_add_one _
  · exact Nat.lt_add_one_of_le this
  · exact this

/-- The tokens of a text. -/
def tokenize (text : String) : Except SyntaxError (List Token) := tokenizeFrom 0 text.toList

end TaggedUnion.Literal
