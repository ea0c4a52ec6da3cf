import TaggedUnion.Files.Path

/-!
# File patterns

A pattern describes paths component by component. In a component `*` stands for any characters, `?`
for one character and `[..]` or `[!..]` for one of a set. A component `**` stands for any number of
directories.

* `Pattern.parse`: the pattern of a text.
* `matchesParts`: whether the parts of a component describe a text. The time is proportional to the
  number of parts times the length of the text; `matchesParts_nil` and the lemmas after it say what
  each part stands for.
* `Component.matchesName`: whether a component describes a name.
-/

namespace TaggedUnion.Glob

/-- The characters from one to another. -/
structure CharRange where
  first : Char
  last : Char
  deriving DecidableEq, Repr

/-- Whether a character is in a range. -/
def CharRange.contains (c : Char) (range : CharRange) : Bool := range.first ≤ c ∧ c ≤ range.last

/-- One element of a pattern. -/
inductive Part where
  | char (c : Char)
  | anyChar
  | oneOf (ranges : List CharRange)
  | noneOf (ranges : List CharRange)
  /-- Any number of characters. -/
  | anyChars
  /-- Any number of directories. -/
  | directories
  deriving DecidableEq, Repr

/-- Why a text is not a pattern. -/
inductive PatternCause where
  /-- More than two stars in a row. -/
  | stars
  /-- Two stars that share their component with something else. -/
  | sharedComponent
  | invalidRange
  deriving DecidableEq, Repr

/-- The wording of a cause. -/
def PatternCause.message : PatternCause → String
  | stars => "wildcards are either regular `*` or recursive `**`"
  | sharedComponent => "recursive wildcards must form a single path component"
  | invalidRange => "invalid range pattern"

/-- A cause, and the number of characters in front of its place. -/
structure PatternError where
  cause : PatternCause
  position : Nat
  deriving DecidableEq, Repr

/-- The wording of an error. -/
def PatternError.message (error : PatternError) : String :=
  "Pattern syntax error near position " ++ toString error.position ++ ": " ++ error.cause.message

/-! ## Reading a pattern -/

/-- The ranges written between brackets. -/
def rangesOf : List Char → List CharRange
  | [] => []
  | first :: '-' :: last :: rest => ⟨first, last⟩ :: rangesOf rest
  | c :: rest => ⟨c, c⟩ :: rangesOf rest

/-- Splits what follows the first character of a set at the bracket that closes it. -/
def closeSet? (first : Char) (rest : List Char) : Option (List CharRange × List Char) :=
  match rest.dropWhile (· ≠ ']') with
  | [] => none
  | _ :: after => some (rangesOf (first :: rest.takeWhile (· ≠ ']')), after)

/-- Reads a set of characters behind its opening bracket. A bracket right at the start of the set
does not close it. -/
def readSet? : List Char → Option (Part × List Char)
  | [] => none
  | first :: rest =>
    if first = '!' then
      match rest with
      | [] => none
      | first :: rest => (closeSet? first rest).map fun (ranges, after) => (.noneOf ranges, after)
    else (closeSet? first rest).map fun (ranges, after) => (.oneOf ranges, after)

theorem closeSet?_length {first : Char} {rest after : List Char} {ranges : List CharRange}
    (h : closeSet? first rest = some (ranges, after)) : after.length < rest.length := by
  unfold closeSet? at h
  split at h
  · simp at h
  · rename_i hd
    have := (List.dropWhile_suffix (l := rest) (· ≠ ']')).length_le
    rw [hd] at this
    cases h
    exact this

theorem readSet?_length {cs after : List Char} {part : Part}
    (h : readSet? cs = some (part, after)) : after.length < cs.length := by
  unfold readSet? at h
  repeat' split at h
  · simp at h
  · simp at h
  · obtain ⟨⟨_, _⟩, hc, he⟩ := Option.map_eq_some_iff.1 h
    have := closeSet?_length hc
    cases he
    simp; omega
  · obtain ⟨⟨_, _⟩, hc, he⟩ := Option.map_eq_some_iff.1 h
    have := closeSet?_length hc
    cases he
    simp; omega

/-- Whether a component can start behind a character, or at the start of the text. -/
def startsComponent (before : Option Char) : Bool := before.isNone || before = some '/'

/-- Reads the parts of a pattern, of which `position` characters have been read, the last one being
`before`. -/
def readParts (position : Nat) (before : Option Char) (cs : List Char) :
    Except PatternError (List Part) :=
  match cs with
  | [] => .ok []
  | c :: rest =>
    if c = '?' then (readParts (position + 1) (some c) rest).map (.anyChar :: ·)
    else if c = '*' then
      have := (List.dropWhile_suffix (l := rest) (· = '*')).length_le
      match h : rest.dropWhile (· = '*'), (rest.takeWhile (· = '*')).length with
      | after, 0 =>
        have : after.length ≤ rest.length := by rw [← h]; exact this
        (readParts (position + 1) (some c) after).map (.anyChars :: ·)
      | after, 1 =>
        if startsComponent before then
          match after with
          | [] => .ok [.directories]
          | next :: after =>
            have : after.length < rest.length := by
              rw [h] at this
              exact this
            if next = '/' then (readParts (position + 3) (some next) after).map (.directories :: ·)
            else .error ⟨.sharedComponent, position + 2⟩
        else .error ⟨.sharedComponent, position - 1⟩
      | _, _ => .error ⟨.stars, position + 2⟩
    else if c = '[' then
      match h : readSet? rest with
      | none => .error ⟨.invalidRange, position⟩
      | some (part, after) =>
        have := readSet?_length h
        (readParts (position + 1 + (rest.length - after.length)) (some ']') after).map (part :: ·)
    else (readParts (position + 1) (some c) rest).map (.char c :: ·)
termination_by cs.length

/-! ## Components -/

/-- One component of a pattern. -/
inductive Component where
  /-- A name that is written out. -/
  | literal (name : String)
  | wild (parts : List Part)
  | directories
  deriving DecidableEq, Repr

/-- The character of a part that is one. -/
def Part.char? : Part → Option Char
  | char c => some c
  | _ => none

/-- The component that parts make. -/
def Component.ofParts (parts : List Part) : Component :=
  match parts.mapM Part.char? with
  | some name => .literal (String.ofList name)
  | none => if parts = [.directories] then .directories else .wild parts

/-- Whether a part that stands for one character stands for this one. -/
def Part.accepts (c : Char) : Part → Bool
  | char other => c = other
  | anyChar => true
  | oneOf ranges => ranges.any (·.contains c)
  | noneOf ranges => !ranges.any (·.contains c)
  | anyChars => false
  | directories => false

/-! ## Matching -/

/-- For each place of a row whether it or a later one is described. -/
def orLater : List Bool → List Bool
  | [] => []
  | described :: later =>
    let later := orLater later
    (described || later.headD false) :: later

/-- For each suffix of a text, the longest first, whether the parts describe it. Each part is
compared with each character once. -/
def suffixMatches : List Part → List Char → List Bool
  | [], cs => cs.map (fun _ => false) ++ [true]
  | .anyChars :: parts, cs => orLater (suffixMatches parts cs)
  | part :: parts, cs =>
    cs.zipWith (fun c described => part.accepts c && described) (suffixMatches parts cs).tail ++
      [false]

/-- Whether the parts describe a text. -/
def matchesParts (parts : List Part) (cs : List Char) : Bool := (suffixMatches parts cs).headD false

theorem orLater_length (row : List Bool) : (orLater row).length = row.length := by
  induction row with
  | nil => rfl
  | cons described later ih => simp [orLater, ih]

theorem suffixMatches_length (parts : List Part) (cs : List Char) :
    (suffixMatches parts cs).length = cs.length + 1 := by
  fun_induction suffixMatches parts cs with
  | case1 cs => simp
  | case2 cs parts ih => simp [orLater_length, ih]
  | case3 part parts cs h ih => simp [ih]

theorem suffixMatches_ne_nil (parts : List Part) (cs : List Char) : suffixMatches parts cs ≠ [] :=
  List.ne_nil_of_length_eq_add_one (suffixMatches_length parts cs)

/-- A shorter text has the same row, without its first place. -/
theorem tail_suffixMatches_cons (parts : List Part) (c : Char) (cs : List Char) :
    (suffixMatches parts (c :: cs)).tail = suffixMatches parts cs := by
  induction parts generalizing c cs with
  | nil => simp [suffixMatches]
  | cons part parts ih =>
    have h := ih c cs
    by_cases hp : part = .anyChars
    · subst hp
      simp only [suffixMatches]
      cases hs : suffixMatches parts (c :: cs) with
      | nil => exact absurd hs (suffixMatches_ne_nil _ _)
      | cons described later => simp [orLater, ← h, hs]
    · rw [suffixMatches.eq_3 _ _ _ hp, suffixMatches.eq_3 _ _ _ hp, h]
      cases hs : suffixMatches parts cs with
      | nil => exact absurd hs (suffixMatches_ne_nil _ _)
      | cons described later => simp

@[simp] theorem matchesParts_nil (cs : List Char) : matchesParts [] cs = cs.isEmpty := by
  cases cs <;> simp [matchesParts, suffixMatches]

theorem matchesParts_anyChars_nil (parts : List Part) :
    matchesParts (.anyChars :: parts) [] = matchesParts parts [] := by
  have h := suffixMatches_length parts []
  match hs : suffixMatches parts [] with
  | [] => simp [hs] at h
  | [described] => simp [matchesParts, suffixMatches, hs, orLater]
  | _ :: _ :: _ => simp [hs] at h

theorem matchesParts_anyChars_cons (parts : List Part) (c : Char) (cs : List Char) :
    matchesParts (.anyChars :: parts) (c :: cs) =
      (matchesParts parts (c :: cs) || matchesParts (.anyChars :: parts) cs) := by
  have h := tail_suffixMatches_cons parts c cs
  match hs : suffixMatches parts (c :: cs) with
  | [] => exact absurd hs (suffixMatches_ne_nil parts (c :: cs))
  | described :: later => simp_all [matchesParts, suffixMatches, orLater]

theorem matchesParts_cons_nil {part : Part} (parts : List Part) (h : part ≠ .anyChars) :
    matchesParts (part :: parts) [] = false := by
  simp [matchesParts, suffixMatches.eq_3 _ _ _ h]

theorem matchesParts_cons_cons {part : Part} (parts : List Part) (c : Char) (cs : List Char)
    (h : part ≠ .anyChars) :
    matchesParts (part :: parts) (c :: cs) = (part.accepts c && matchesParts parts cs) := by
  rw [matchesParts, suffixMatches.eq_3 _ _ _ h, tail_suffixMatches_cons, matchesParts]
  match hs : suffixMatches parts cs with
  | [] => exact absurd hs (suffixMatches_ne_nil parts cs)
  | described :: later => simp

/-- Whether a component describes a name. -/
def Component.matchesName (name : String) : Component → Bool
  | literal other => name = other
  | wild parts => matchesParts parts name.toList
  | directories => true

/-- A pattern: its components in order, and whether it describes directories only. -/
structure Pattern where
  isAbsolute : Bool
  components : List Component
  onlyDirectories : Bool
  deriving DecidableEq, Repr

namespace Pattern

/-- Whether a text has a character that is special in patterns. An opening brace counts, although it
stands for itself. -/
def isWritten (text : String) : Bool := text.toList.any fun c => c ∈ ['*', '?', '[', '\x7b']

/-- The components of a text: the pieces between slashes, less the one behind the last slash. -/
def readComponents (cs : List Char) : Except PatternError (List Component) :=
  let pieces := Text.split '/' cs
  let pieces := if pieces.getLast? = some [] then pieces.dropLast else pieces
  pieces.mapM fun piece => (readParts 0 none piece).map Component.ofParts

/-- The pattern of a text. It has to be well formed as a whole and in each component. -/
def parse (text : String) : Except PatternError Pattern := do
  let cs := text.toList
  discard <| readParts 0 none cs
  return {
    isAbsolute := Path.isAbsolute text
    components := ← readComponents (cs.dropWhile (· = '/'))
    onlyDirectories := cs.getLast? = some '/' }

end Pattern

end TaggedUnion.Glob
