import TaggedUnion.Json.SyntaxError
import TaggedUnion.Text.Escape

/-!
# Strings in JSON text

`Json.readString` reads a string from behind its opening quote: raw characters other than controls,
and escapes. A code point beyond the first plane is written as a surrogate pair of two escapes.
-/

namespace TaggedUnion.Json

/-- Reads four hexadecimal digits. Four bytes of anything else count as read. -/
def readCodeUnit (cs : List Char) : Except Fault (Nat × List Char) :=
  match Text.readHex? cs with
  | some found => .ok found
  | none =>
    let size := Text.byteSize cs
    .error
      (if size < 4 then .before .endInString []
      else { cause := .invalidEscape, remaining := size - 4 })

/-- The character that two code units stand for, the first one being the first half of a surrogate
pair. -/
def pairedChar? (first second : Nat) : Option Char :=
  if 0xDC00 ≤ second ∧ second ≤ 0xDFFF then
    Text.charOfCode? (0x10000 + (first - 0xD800) * 0x400 + (second - 0xDC00))
  else none

/-- Reads the escape of the second half of a surrogate pair, of which the first half is known. -/
def readSecondHalf (first : Nat) (cs : List Char) : Except Fault (Char × List Char) :=
  match cs with
  | [] => .error (.before .endInString [])
  | c :: afterBackslash =>
    if c ≠ '\\' then .error (.on .unfinishedPair cs)
    else
      match afterBackslash with
      | [] => .error (.before .endInString [])
      | u :: digits =>
        if u ≠ 'u' then .error (.on .unfinishedPair afterBackslash)
        else
          match readCodeUnit digits with
          | .error fault => .error fault
          | .ok (second, rest) =>
            match pairedChar? first second with
            | some c => .ok (c, rest)
            | none => .error (.before .loneSurrogate rest)

/-- Reads an escape from behind its backslash. -/
def readEscape (cs : List Char) : Except Fault (Char × List Char) :=
  match cs with
  | [] => .error (.before .endInString [])
  | c :: rest =>
    match Text.simpleEscape? c with
    | some plain => .ok (plain, rest)
    | none =>
      if c ≠ 'u' then .error (.on .invalidEscape cs)
      else
        match readCodeUnit rest with
        | .error fault => .error fault
        | .ok (unit, rest) =>
          match Text.charOfCode? unit with
          | some c => .ok (c, rest)
          | none =>
            if unit < 0xDC00 then readSecondHalf unit rest
            else .error (.before .loneSurrogate rest)

theorem readCodeUnit_length {cs rest : List Char} {n : Nat} (h : readCodeUnit cs = .ok (n, rest)) :
    rest.length ≤ cs.length := by
  unfold readCodeUnit at h
  split at h
  · rename_i found hf
    cases h
    have := Text.readHex?_length hf
    omega
  · simp at h

theorem readSecondHalf_length {first : Nat} {cs rest : List Char} {c : Char}
    (h : readSecondHalf first cs = .ok (c, rest)) : rest.length ≤ cs.length := by
  unfold readSecondHalf at h
  split at h
  · simp at h
  · split at h
    · simp at h
    · split at h
      · simp at h
      · split at h
        · simp at h
        · split at h
          · simp at h
          · rename_i hr
            have := readCodeUnit_length hr
            split at h
            · cases h; simp; omega
            · simp at h

theorem readEscape_length {cs rest : List Char} {c : Char} (h : readEscape cs = .ok (c, rest)) :
    rest.length < cs.length := by
  unfold readEscape at h
  split at h
  · simp at h
  · split at h
    · cases h; simp
    · split at h
      · simp at h
      · split at h
        · simp at h
        · rename_i hr
          have := readCodeUnit_length hr
          split at h
          · cases h; simp; omega
          · split at h
            · have := readSecondHalf_length h
              simp; omega
            · simp at h

/-- Reads a string from behind its opening quote up to its closing one. -/
def readString (cs : List Char) : Except Fault (List Char × List Char) :=
  match cs with
  | [] => .error (.before .endInString [])
  | c :: rest =>
    if c = '"' then .ok ([], rest)
    else if c = '\\' then
      match h : readEscape rest with
      | .error fault => .error fault
      | .ok (decoded, rest) =>
        have := readEscape_length h
        (readString rest).map fun (text, rest) => (decoded :: text, rest)
    else if c.toNat < 32 then .error (.on .controlCharacter cs)
    else (readString rest).map fun (text, rest) => (c :: text, rest)
termination_by cs.length

theorem readString_length {cs rest text : List Char} (h : readString cs = .ok (text, rest)) :
    rest.length < cs.length := by
  fun_induction readString cs generalizing text rest with
  | case1 => simp at h
  | case2 => cases h; simp
  | case3 => simp at h
  | case4 _ _ rest' _ hlen _ ih =>
    cases hr : readString rest' with
    | error => simp [hr, Except.map] at h
    | ok found =>
      obtain ⟨found, left⟩ := found
      simp only [hr, Except.map, Except.ok.injEq, Prod.mk.injEq] at h
      have := ih hr
      obtain ⟨_, rfl⟩ := h
      simp; omega
  | case5 => simp at h
  | case6 c rest' _ _ _ ih =>
    cases hr : readString rest' with
    | error => simp [hr, Except.map] at h
    | ok found =>
      obtain ⟨found, left⟩ := found
      simp only [hr, Except.map, Except.ok.injEq, Prod.mk.injEq] at h
      have := ih hr
      obtain ⟨_, rfl⟩ := h
      simp; omega

end TaggedUnion.Json
