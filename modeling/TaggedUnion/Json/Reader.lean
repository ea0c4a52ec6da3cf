import TaggedUnion.Json.Number
import TaggedUnion.Json.StringReader

/-!
# Reading JSON text

The reader keeps a stack of the containers it is in, innermost first, and either looks for a value
or has just read one. Each step takes something off the text, so reading ends.

* `Json.readValue`: the first value of a text, repeated member names kept, and what follows it.
* `Json.parse`: the value that a whole text is, with repeated member names merged.
* `readItemStart`, `readMemberStart`, `readColon`: the steps from one part of a container to the
  next.
-/

namespace TaggedUnion.Json

/-- The blanks of JSON. -/
def isBlank (c : Char) : Bool := c = ' ' || c = '\n' || c = '\t' || c = '\r'

/-- The text without the blanks at its start. -/
def skipBlanks (cs : List Char) : List Char := cs.dropWhile isBlank

theorem skipBlanks_length (cs : List Char) : (skipBlanks cs).length ≤ cs.length :=
  (List.dropWhile_suffix isBlank).length_le

theorem length_of_skipBlanks_eq_cons {cs rest : List Char} {c : Char}
    (h : skipBlanks cs = c :: rest) : rest.length < cs.length := by
  have := skipBlanks_length cs
  rw [h, List.length_cons] at this
  omega

/-! ## From one part of a container to the next -/

/-- What follows in an array: an item, which starts at the rest, or the end. -/
inductive ItemStart where
  | item (rest : List Char)
  | close (rest : List Char)

/-- Moves to the first item of an array, or past the comma to the next one, or past the end. -/
def readItemStart (first : Bool) (cs : List Char) : Except Fault ItemStart :=
  match skipBlanks cs with
  | [] => .error (.before .endInArray [])
  | c :: rest =>
    if c = ']' then .ok (.close rest)
    else if first then .ok (.item (c :: rest))
    else if c ≠ ',' then .error (.on .expectedCommaOrBracket (c :: rest))
    else
      match skipBlanks rest with
      | [] => .error (.before .endInValue [])
      | d :: more =>
        if d = ']' then .error (.on .trailingComma (d :: more)) else .ok (.item (d :: more))

/-- What follows in an object: a name with the rest behind it, or the end. -/
inductive MemberStart where
  | name (name : String) (rest : List Char)
  | close (rest : List Char)

/-- Reads a name from behind its opening quote. -/
def readName (cs : List Char) : Except Fault MemberStart :=
  match readString cs with
  | .error fault => .error fault
  | .ok (text, rest) => .ok (.name (String.ofList text) rest)

/-- Reads the first name of an object, or the comma and the next one, or the end. -/
def readMemberStart (first : Bool) (cs : List Char) : Except Fault MemberStart :=
  match skipBlanks cs with
  | [] => .error (.before .endInObject [])
  | c :: rest =>
    if c = '\x7d' then .ok (.close rest)
    else if first then
      if c = '"' then readName rest else .error (.on .nameNotString (c :: rest))
    else if c ≠ ',' then .error (.on .expectedCommaOrBrace (c :: rest))
    else
      match skipBlanks rest with
      | [] => .error (.before .endInValue [])
      | d :: more =>
        if d = '"' then readName more
        else if d = '\x7d' then .error (.on .trailingComma (d :: more))
        else .error (.on .nameNotString (d :: more))

/-- Reads the colon behind a name. -/
def readColon (cs : List Char) : Except Fault (List Char) :=
  match skipBlanks cs with
  | [] => .error (.before .endInObject [])
  | c :: rest => if c = ':' then .ok rest else .error (.on .expectedColon (c :: rest))

theorem readItemStart_close_length {first : Bool} {cs rest : List Char}
    (h : readItemStart first cs = .ok (.close rest)) : rest.length < cs.length := by
  unfold readItemStart at h
  split at h
  · simp at h
  · rename_i hs
    have := length_of_skipBlanks_eq_cons hs
    repeat' split at h
    all_goals simp_all

theorem readItemStart_item_length {first : Bool} {cs rest : List Char}
    (h : readItemStart first cs = .ok (.item rest)) :
    rest.length ≤ cs.length ∧ (first = false → rest.length < cs.length) := by
  unfold readItemStart at h
  split at h
  · simp at h
  · rename_i c r hs
    have hlt := length_of_skipBlanks_eq_cons hs
    split at h
    · simp at h
    · split at h
      · rename_i hf
        simp only [Except.ok.injEq, ItemStart.item.injEq] at h
        subst h
        simp only [List.length_cons, hf]
        refine ⟨by omega, by simp⟩
      · split at h
        · simp at h
        · split at h
          · simp at h
          · rename_i hs'
            have := length_of_skipBlanks_eq_cons hs'
            split at h
            · simp at h
            · simp only [Except.ok.injEq, ItemStart.item.injEq] at h
              subst h
              simp only [List.length_cons]
              refine ⟨by omega, fun _ => by omega⟩

theorem readName_length {cs rest : List Char} {name : String}
    (h : readName cs = .ok (.name name rest)) : rest.length < cs.length := by
  unfold readName at h
  split at h
  · simp at h
  · rename_i hr
    simp only [Except.ok.injEq, MemberStart.name.injEq] at h
    rw [← h.2]
    exact readString_length hr

theorem readName_ne_close {cs rest : List Char} (h : readName cs = .ok (.close rest)) : False := by
  unfold readName at h
  split at h <;> simp at h

theorem readMemberStart_length {first : Bool} {cs rest : List Char} {start : MemberStart}
    (h : readMemberStart first cs = .ok start)
    (hrest : start = .close rest ∨ ∃ name, start = .name name rest) : rest.length < cs.length := by
  unfold readMemberStart at h
  split at h
  · simp at h
  · rename_i hs
    have hlt := length_of_skipBlanks_eq_cons hs
    have hname : ∀ {more : List Char}, readName more = .ok start → rest.length < more.length := by
      intro more hr
      rcases hrest with rfl | ⟨_, rfl⟩
      · exact (readName_ne_close hr).elim
      · exact readName_length hr
    split at h
    · simp only [Except.ok.injEq] at h
      subst h
      simp only [MemberStart.close.injEq, reduceCtorEq, exists_false, or_false] at hrest
      subst hrest
      exact hlt
    · split at h
      · split at h
        · have := hname h
          omega
        · simp at h
      · split at h
        · simp at h
        · split at h
          · simp at h
          · rename_i hs'
            have := length_of_skipBlanks_eq_cons hs'
            split at h
            · have := hname h
              omega
            · split at h <;> simp at h

theorem readColon_length {cs rest : List Char} (h : readColon cs = .ok rest) :
    rest.length < cs.length := by
  unfold readColon at h
  split at h
  · simp at h
  · rename_i hs
    have := length_of_skipBlanks_eq_cons hs
    split at h
    · simp only [Except.ok.injEq] at h
      rw [← h]
      exact this
    · simp at h

/-! ## The reader -/

/-- Reads the rest of a keyword. -/
def readKeyword (letters : List Char) (value : Json) (cs : List Char) :
    Except Fault (Json × List Char) :=
  match letters with
  | [] => .ok (value, cs)
  | letter :: letters =>
    match cs with
    | [] => .error (.before .endInValue [])
    | c :: rest =>
      if c = letter then readKeyword letters value rest else .error (.on .expectedKeyword cs)

/-- Reads a value that is no container, of which `c` is the first character. -/
def readScalar (c : Char) (rest : List Char) : Except Fault (Json × List Char) :=
  if c = 'n' then readKeyword ['u', 'l', 'l'] .null rest
  else if c = 't' then readKeyword ['r', 'u', 'e'] (.bool true) rest
  else if c = 'f' then readKeyword ['a', 'l', 's', 'e'] (.bool false) rest
  else if c = '"' then
    (readString rest).map fun (text, rest) => (.string (String.ofList text), rest)
  else if c = '-' ∨ c.isDigit then (readNumber (c :: rest)).map fun (n, rest) => (.number n, rest)
  else .error (.on .expectedValue (c :: rest))

/-- A container that is being read, with what has been read of it, the last part first. -/
inductive Frame where
  | array (items : List Json)
  /-- The value of the member `name` comes next. -/
  | object (members : List (String × Json)) (name : String)

/-- The part of the container that is being read. -/
def Frame.step : Frame → PathStep
  | array items => .item items.length
  | object _ name => .member name

/-- The path to the value that is being read, for containers listed from the innermost one. -/
def framePath (stack : List Frame) : List PathStep := (stack.map Frame.step).reverse

/-- What the reader does next. -/
inductive Task where
  /-- It looks for a value. -/
  | value
  /-- It has just read a value, a part of the innermost container. -/
  | after (value : Json)

/-- How far one step of the reader comes. -/
inductive Progress where
  | next (stack : List Frame) (task : Task) (rest : List Char)
  | done (value : Json) (rest : List Char)

/-- The number of containers that may be open at once, plus one. -/
def depthLimit : Nat := 128

/-- Goes on after the start of an item. What stands between items belongs to the array. -/
def afterItemStart (outer : List Frame) (items : List Json) :
    Except Fault ItemStart → Except Fault Progress
  | .error fault => .error (fault.under (framePath outer))
  | .ok (.close rest) => .ok (.next outer (.after (.array items.reverse)) rest)
  | .ok (.item rest) => .ok (.next (.array items :: outer) .value rest)

/-- Goes on after the name of a member, or after a fault in front of it. The colon belongs to the
object, and what stands between members to the member that should follow. -/
def afterMemberStart (outer : List Frame) (members : List (String × Json)) :
    Except Fault MemberStart → Except Fault Progress
  | .error fault => .error (fault.under (framePath outer ++ [.unnamed]))
  | .ok (.close rest) => .ok (.next outer (.after (.object members.reverse)) rest)
  | .ok (.name name rest) =>
    match readColon rest with
    | .error fault => .error (fault.under (framePath outer))
    | .ok rest => .ok (.next (.object members name :: outer) .value rest)

/-- Looks for a value. `outside` containers are open around the ones on the stack. -/
def stepValue (outside : Nat) (stack : List Frame) (cs : List Char) : Except Fault Progress :=
  match skipBlanks cs with
  | [] => .error ((Fault.before .endInValue []).under (framePath stack))
  | c :: rest =>
    if c = '[' ∨ c = '\x7b' then
      if depthLimit ≤ outside + stack.length + 1 then
        .error ((Fault.on .tooDeep (c :: rest)).under (framePath stack))
      else if c = '[' then afterItemStart stack [] (readItemStart true rest)
      else afterMemberStart stack [] (readMemberStart true rest)
    else
      match readScalar c rest with
      | .error fault => .error (fault.under (framePath stack))
      | .ok (value, rest) => .ok (.next stack (.after value) rest)

/-- One step of the reader. -/
def step (outside : Nat) (stack : List Frame) (task : Task) (cs : List Char) :
    Except Fault Progress :=
  match task with
  | .value => stepValue outside stack cs
  | .after value =>
    match stack with
    | [] => .ok (.done value cs)
    | .array items :: outer => afterItemStart outer (value :: items) (readItemStart false cs)
    | .object members name :: outer =>
      afterMemberStart outer ((name, value) :: members) (readMemberStart false cs)

theorem readKeyword_length {letters cs rest : List Char} {value found : Json}
    (h : readKeyword letters value cs = .ok (found, rest)) : rest.length ≤ cs.length := by
  induction letters generalizing cs with
  | nil => simp_all [readKeyword]
  | cons letter letters ih =>
    cases cs with
    | nil => simp [readKeyword] at h
    | cons c cs =>
      simp only [readKeyword] at h
      split at h
      · have := ih h
        simp; omega
      · simp at h

theorem readScalar_length {c : Char} {cs rest : List Char} {value : Json}
    (h : readScalar c cs = .ok (value, rest)) : rest.length ≤ cs.length := by
  unfold readScalar at h
  repeat' split at h
  · exact readKeyword_length h
  · exact readKeyword_length h
  · exact readKeyword_length h
  · cases hr : readString cs with
    | error => simp [hr, Except.map] at h
    | ok found =>
      obtain ⟨found, left⟩ := found
      simp only [hr, Except.map, Except.ok.injEq, Prod.mk.injEq] at h
      have := readString_length hr
      rw [← h.2]; omega
  · cases hr : readNumber (c :: cs) with
    | error => simp [hr, Except.map] at h
    | ok found =>
      obtain ⟨found, left⟩ := found
      simp only [hr, Except.map, Except.ok.injEq, Prod.mk.injEq] at h
      have := readNumber_length hr
      rw [← h.2]
      simp at this
      omega
  · simp at h

theorem afterItemStart_length {outer stack : List Frame} {items : List Json} {task : Task}
    {first : Bool} {cs rest : List Char}
    (h : afterItemStart outer items (readItemStart first cs) = .ok (.next stack task rest)) :
    rest.length ≤ cs.length ∧ (first = false → rest.length < cs.length) := by
  cases hr : readItemStart first cs with
  | error => simp [hr, afterItemStart] at h
  | ok start =>
    cases start with
    | close r =>
      have := readItemStart_close_length hr
      simp only [hr, afterItemStart, Except.ok.injEq, Progress.next.injEq] at h
      obtain ⟨_, _, rfl⟩ := h
      omega
    | item r =>
      have := readItemStart_item_length hr
      simp only [hr, afterItemStart, Except.ok.injEq, Progress.next.injEq] at h
      obtain ⟨_, _, rfl⟩ := h
      exact this

theorem afterMemberStart_length {outer stack : List Frame} {members : List (String × Json)}
    {task : Task} {first : Bool} {cs rest : List Char}
    (h : afterMemberStart outer members (readMemberStart first cs) = .ok (.next stack task rest)) :
    rest.length < cs.length := by
  cases hr : readMemberStart first cs with
  | error => simp [hr, afterMemberStart] at h
  | ok start =>
    cases start with
    | close r =>
      have := readMemberStart_length hr (.inl rfl)
      simp only [hr, afterMemberStart, Except.ok.injEq, Progress.next.injEq] at h
      obtain ⟨_, _, rfl⟩ := h
      exact this
    | name name r =>
      have := readMemberStart_length hr (.inr ⟨name, rfl⟩)
      simp only [hr, afterMemberStart] at h
      split at h
      · simp at h
      · rename_i hc
        have := readColon_length hc
        simp only [Except.ok.injEq, Progress.next.injEq] at h
        obtain ⟨_, _, rfl⟩ := h
        omega

theorem stepValue_length {outside : Nat} {stack stack' : List Frame} {task : Task}
    {cs rest : List Char} (h : stepValue outside stack cs = .ok (.next stack' task rest)) :
    rest.length < cs.length := by
  unfold stepValue at h
  split at h
  · simp at h
  · rename_i hs
    have hlt := length_of_skipBlanks_eq_cons hs
    split at h
    · split at h
      · simp at h
      · split at h
        · have := (afterItemStart_length h).1
          omega
        · have := afterMemberStart_length h
          omega
    · split at h
      · simp at h
      · rename_i hr
        have := readScalar_length hr
        simp only [Except.ok.injEq, Progress.next.injEq] at h
        obtain ⟨_, _, rfl⟩ := h
        omega

theorem step_length {outside : Nat} {stack stack' : List Frame} {task task' : Task}
    {cs rest : List Char} (h : step outside stack task cs = .ok (.next stack' task' rest)) :
    rest.length < cs.length := by
  unfold step at h
  split at h
  · exact stepValue_length h
  · split at h
    · simp at h
    · exact (afterItemStart_length h).2 rfl
    · exact afterMemberStart_length h

/-- Reads on until the value at the bottom of the stack is complete. -/
def run (outside : Nat) (stack : List Frame) (task : Task) (cs : List Char) :
    Except Fault (Json × List Char) :=
  match h : step outside stack task cs with
  | .error fault => .error fault
  | .ok (.done value rest) => .ok (value, rest)
  | .ok (.next stack task rest) =>
    have := step_length h
    run outside stack task rest
termination_by cs.length

theorem run_length {outside : Nat} {stack : List Frame} {task : Task} {cs rest : List Char}
    {value : Json} (h : run outside stack task cs = .ok (value, rest)) :
    rest.length ≤ cs.length := by
  fun_induction run outside stack task cs with
  | case1 => simp at h
  | case2 stack task cs found after hstep =>
    simp only [Except.ok.injEq, Prod.mk.injEq] at h
    obtain ⟨_, rfl⟩ := h
    unfold step at hstep
    split at hstep
    · unfold stepValue afterItemStart afterMemberStart at hstep
      grind
    · unfold afterItemStart afterMemberStart at hstep
      grind
  | case3 _ _ _ _ _ _ _ hlen ih =>
    have := ih h
    omega

/-- The first value of a text and what follows it, with `outside` containers open around it.
Repeated names are kept. -/
def readValue (outside : Nat) (cs : List Char) : Except Fault (Json × List Char) :=
  run outside [] .value cs

/-- The value that a whole text is, repeated names included. -/
def readWhole (text : String) : Except Fault Json :=
  match readValue 0 text.toList with
  | .error fault => .error fault
  | .ok (value, rest) =>
    match skipBlanks rest with
    | [] => .ok value
    | c :: rest => .error (.on .trailingCharacters (c :: rest))

/-- The value that a whole text is. Of members of one name, the first gives the place and the last
the value. -/
def parse (text : String) : Except Fault Json := (readWhole text).map merged

end TaggedUnion.Json
