import TaggedUnion.Json.Reader
import TaggedUnion.Outcome

/-!
# Passing over JSON text

`Json.skipValue` passes over a value that nobody looks at. Such a value may nest without limit, its
numbers may be out of range and its escapes may be lone surrogates, and a comma at the end of a
container is reported as a missing part.
-/

namespace TaggedUnion.Json

/-- Passes over a string from behind its opening quote. -/
def skipString (cs : List Char) : Except Fault (List Char) :=
  match cs with
  | [] => .error (.before .endInString [])
  | c :: rest =>
    if c = '"' then .ok rest
    else if c = '\\' then
      match rest with
      | [] => .error (.before .endInString [])
      | letter :: rest =>
        if (Text.simpleEscape? letter).isSome then skipString rest
        else if letter ≠ 'u' then .error (.on .invalidEscape (letter :: rest))
        else
          match h : readCodeUnit rest with
          | .error fault => .error fault
          | .ok (_, rest) =>
            have := readCodeUnit_length h
            skipString rest
    else if c.toNat < 32 then .error (.before .controlCharacter cs)
    else skipString rest
termination_by cs.length
decreasing_by all_goals simp_all <;> omega

/-- Passes over a value that is no container, of which `c` is the first character. -/
def skipScalar (c : Char) (rest : List Char) : Except Fault (List Char) :=
  if c = '"' then skipString rest
  else if c = '-' ∨ c.isDigit then
    match readNumeral (c :: rest) with
    | .error fault => .error { fault with cause := .invalidNumber }
    | .ok (_, rest) => .ok rest
  else (readScalar c rest).map Prod.snd

/-- A container that is being passed over. -/
inductive Container where
  | array
  | object
  deriving DecidableEq

namespace Container

/-- The bracket that ends the container. -/
def closing : Container → Char
  | array => ']'
  | object => '\x7d'

/-- The text ends inside the container. -/
def unfinished : Container → Fault
  | array => .before .endInArray []
  | object => .before .endInObject []

/-- A part of the container is followed by something else than a comma or the end. -/
def unseparated : Container → List Char → Fault
  | array => .on .expectedCommaOrBracket
  | object => .on .expectedCommaOrBrace

end Container

/-- Passes over the name of a member and its colon. -/
def skipName (cs : List Char) : Except Fault (List Char) :=
  match skipBlanks cs with
  | [] => .error (.before .endInObject [])
  | c :: rest =>
    if c ≠ '"' then .error (.on .nameNotString (c :: rest))
    else
      match skipString rest with
      | .error fault => .error fault
      | .ok rest => readColon rest

/-- Passes over what stands between the start of a part of a container and its value. -/
def skipPartStart (container : Container) (cs : List Char) : Except Fault (List Char) :=
  match container with
  | .array => .ok cs
  | .object => skipName cs

/-- Goes into a container, of which the opening bracket has been read. -/
def skipOpening (container : Container) (outer : List Container) (cs : List Char) :
    Except Fault (List Container × Bool × List Char) :=
  match skipBlanks cs with
  | [] => .error container.unfinished
  | c :: rest =>
    if c = container.closing then .ok (outer, false, rest)
    else (skipPartStart container (c :: rest)).map fun rest => (container :: outer, true, rest)

/-- One step: `value` says whether a value comes next. The result says the same of the rest. -/
def skipStep (stack : List Container) (value : Bool) (cs : List Char) :
    Except Fault (List Container × Bool × List Char) :=
  match skipBlanks cs, value, stack with
  | [], true, _ => .error (.before .endInValue [])
  | [], false, [] => .ok ([], false, [])
  | [], false, container :: _ => .error container.unfinished
  | c :: rest, true, stack =>
    if c = '[' then skipOpening .array stack rest
    else if c = '\x7b' then skipOpening .object stack rest
    else (skipScalar c rest).map fun rest => (stack, false, rest)
  | c :: rest, false, [] => .ok ([], false, c :: rest)
  | c :: rest, false, container :: outer =>
    if c = container.closing then .ok (outer, false, rest)
    else if c ≠ ',' then .error (container.unseparated (c :: rest))
    else (skipPartStart container rest).map fun rest => (container :: outer, true, rest)

theorem skipString_length {cs rest : List Char} (h : skipString cs = .ok rest) :
    rest.length < cs.length := by
  fun_induction skipString cs <;> simp_all <;> grind

theorem skipScalar_length {c : Char} {cs rest : List Char} (h : skipScalar c cs = .ok rest) :
    rest.length ≤ cs.length := by
  unfold skipScalar at h
  split at h
  · have := skipString_length h
    omega
  · split at h
    · split at h
      · simp at h
      · rename_i hn
        have := readNumeral_length hn
        cases h
        simp at this
        omega
    · cases hr : readScalar c cs with
      | error => simp [hr, Except.map] at h
      | ok found =>
        obtain ⟨value, left⟩ := found
        have := readScalar_length hr
        simp only [hr, Except.map, Except.ok.injEq] at h
        subst h
        exact this

theorem skipPartStart_length {container : Container} {cs rest : List Char}
    (h : skipPartStart container cs = .ok rest) : rest.length ≤ cs.length := by
  cases container with
  | array =>
    cases h
    exact Nat.le_refl _
  | object =>
    simp only [skipPartStart, skipName] at h
    split at h
    · simp at h
    · rename_i hs
      have := length_of_skipBlanks_eq_cons hs
      split at h
      · simp at h
      · split at h
        · simp at h
        · rename_i hstring
          have := skipString_length hstring
          have := readColon_length h
          omega

theorem skipOpening_length {container : Container} {outer stack : List Container} {value : Bool}
    {cs rest : List Char} (h : skipOpening container outer cs = .ok (stack, value, rest)) :
    rest.length ≤ cs.length := by
  unfold skipOpening at h
  split at h
  · simp at h
  · rename_i hs
    have := length_of_skipBlanks_eq_cons hs
    split at h
    · cases h
      omega
    · obtain ⟨r, hr, heq⟩ := map_eq_ok.mp h
      cases heq
      have := skipPartStart_length hr
      simp at this
      omega

theorem skipStep_length {stack stack' : List Container} {value value' : Bool} {cs rest : List Char}
    (h : skipStep stack value cs = .ok (stack', value', rest)) (hnot : stack ≠ [] ∨ value = true) :
    rest.length < cs.length := by
  unfold skipStep at h
  split at h
  · simp at h
  · simp_all
  · simp at h
  · rename_i hs
    have := length_of_skipBlanks_eq_cons hs
    split at h
    · have := skipOpening_length h
      omega
    · split at h
      · have := skipOpening_length h
        omega
      · obtain ⟨r, hr, heq⟩ := map_eq_ok.mp h
        cases heq
        have := skipScalar_length hr
        omega
  · simp_all
  · rename_i hs
    have := length_of_skipBlanks_eq_cons hs
    split at h
    · cases h
      omega
    · split at h
      · simp at h
      · obtain ⟨r, hr, heq⟩ := map_eq_ok.mp h
        cases heq
        have := skipPartStart_length hr
        omega

/-- Passes over text until no container is open and no value is awaited. -/
def skipRun (stack : List Container) (value : Bool) (cs : List Char) : Except Fault (List Char) :=
  if hdone : stack = [] ∧ value = false then .ok cs
  else
    match h : skipStep stack value cs with
    | .error fault => .error fault
    | .ok (inner, next, rest) =>
      have := skipStep_length h (by simpa [Classical.or_iff_not_imp_left] using hdone)
      skipRun inner next rest
termination_by cs.length

theorem skipRun_length {stack : List Container} {value : Bool} {cs rest : List Char}
    (h : skipRun stack value cs = .ok rest) : rest.length ≤ cs.length := by
  fun_induction skipRun stack value cs with
  | case1 =>
    cases h
    exact Nat.le_refl _
  | case2 => simp at h
  | case3 _ _ _ _ _ _ _ _ hlen ih =>
    have := ih h
    omega

/-- What follows the first value of a text. -/
def skipValue (cs : List Char) : Except Fault (List Char) := skipRun [] true cs

end TaggedUnion.Json
