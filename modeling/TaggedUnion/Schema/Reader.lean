import TaggedUnion.Json.Skip
import TaggedUnion.Schema.Document

/-!
# Reading schema documents

`Document.read` reads a document from its text, from front to back. The text of a declaration is
read whole before its members are looked at, only its kind is checked where it stands. So of two
faults the first one in the text counts, a fault of the text inside a declaration coming before one
of its members. What follows the document is not looked at.

The document may also be an array with the list of declarations, and a declaration an array of its
kind and its members in order.
-/

namespace TaggedUnion.Document

open Json (PathStep Fault)

/-- A fault of the text, under the path to the part that was being read. -/
def ofFault (path : List PathStep) (fault : Fault) : DocumentError :=
  ⟨.syntaxError fault.cause, path ++ fault.path, fault.remaining⟩

/-- A fault of a part, found with `rest` still to be read. -/
def fault (path : List PathStep) (cause : DocumentFault) (rest : List Char) : DocumentError :=
  ⟨cause, path, Text.byteSize rest⟩

/-- Where the reader stands after it has given up an object: past the brace, if it comes next. -/
def pastObject (cs : List Char) : List Char :=
  match Json.skipBlanks cs with
  | [] => []
  | c :: rest => if c = '\x7d' then rest else c :: rest

/-- Where the reader stands after it has given up an array: past the bracket or comma, if one comes
next. -/
def pastArray (cs : List Char) : List Char :=
  match Json.skipBlanks cs with
  | [] => []
  | c :: rest => if c = ']' then rest else if c = ',' then Json.skipBlanks rest else c :: rest

/-- Refuses the value of which `c` is the first character. A container is refused unread. -/
def refuse (path : List PathStep) (expected : String) (c : Char) (rest : List Char) :
    DocumentError :=
  if c = '[' then fault path (.invalidType (Json.described (.array [])) expected) (c :: rest)
  else if c = '\x7b' then
    fault path (.invalidType (Json.described (.object [])) expected) (c :: rest)
  else
    match Json.readScalar c rest with
    | .error scalarFault => ofFault path scalarFault
    | .ok (value, rest) => fault path (.invalidType value.described expected) rest

/-- Reads the kind of a declaration. -/
def readKind (path : List PathStep) (cs : List Char) : Except DocumentError (DefKind × List Char) :=
  match Json.skipBlanks cs with
  | [] => .error (ofFault path (.before .endInValue []))
  | c :: rest =>
    if c ≠ '"' then .error (refuse path "variant identifier" c rest)
    else
      match Json.readString rest with
      | .error stringFault => .error (ofFault path stringFault)
      | .ok (text, rest) =>
        match DefKind.ofName? (String.ofList text) with
        | some kind => .ok (kind, rest)
        | none => .error (fault path (.unknownKind (String.ofList text)) rest)

/-- Containers around the parts of a declaration: the document, the list and the declaration. -/
def partDepth : Nat := 3

/-- Reads a part of a declaration. -/
def readPart (path : List PathStep) (cs : List Char) : Except DocumentError (Json × List Char) :=
  match Json.readValue partDepth cs with
  | .error partFault => .error (ofFault path partFault)
  | .ok found => .ok found

/-- Reads a colon. -/
def readColon (path : List PathStep) (cs : List Char) : Except DocumentError (List Char) :=
  match Json.readColon cs with
  | .error colonFault => .error (ofFault path colonFault)
  | .ok rest => .ok rest

theorem readKind_length {path : List PathStep} {cs rest : List Char} {kind : DefKind}
    (h : readKind path cs = .ok (kind, rest)) : rest.length < cs.length := by
  unfold readKind at h
  split at h
  · simp at h
  · rename_i hs
    have := Json.length_of_skipBlanks_eq_cons hs
    split at h
    · simp at h
    · split at h
      · simp at h
      · rename_i hr
        have := Json.readString_length hr
        split at h
        · cases h
          omega
        · simp at h

theorem readPart_length {path : List PathStep} {cs rest : List Char} {value : Json}
    (h : readPart path cs = .ok (value, rest)) : rest.length ≤ cs.length := by
  unfold readPart at h
  split at h
  · simp at h
  · rename_i found hv
    cases h
    exact Json.run_length hv

theorem readColon_length {path : List PathStep} {cs rest : List Char}
    (h : readColon path cs = .ok rest) : rest.length < cs.length := by
  unfold readColon at h
  split at h
  · simp at h
  · rename_i hc
    cases h
    exact Json.readColon_length hc

/-! ## Declarations -/

/-- A declaration whose text has been read. -/
abbrev Declared := Reading TypeDef × List Char

/-- Reads the members of a declaration, of which `members` are known, the last one first. -/
def readMembers (path : List PathStep) (first : Bool) (kind : Option DefKind)
    (members : List (String × Json)) (cs : List Char) : Except DocumentError Declared :=
  match h : Json.readMemberStart first cs with
  | .error startFault => .error (ofFault (path ++ [.unnamed]) startFault)
  | .ok (.close rest) =>
    match kind with
    | none => .error (fault path (.missingField "kind") rest)
    | some kind => .ok (TypeDef.ofMembers kind members.reverse, rest)
  | .ok (.name name rest) =>
    have := Json.readMemberStart_length h (.inr ⟨name, rfl⟩)
    let here := path ++ [.member name]
    if name = "kind" ∧ kind.isSome then
      .error (fault path (.duplicateField name) (pastObject rest))
    else
      match hc : readColon path rest with
      | .error error => .error error
      | .ok afterColon =>
        have := readColon_length hc
        if name = "kind" then
          match hk : readKind here afterColon with
          | .error error => .error error
          | .ok (kind, rest) =>
            have := readKind_length hk
            readMembers path false (some kind) members rest
        else
          match hp : readPart here afterColon with
          | .error error => .error error
          | .ok (value, rest) =>
            have := readPart_length hp
            readMembers path false kind ((name, value) :: members) rest
termination_by cs.length

/-- Reads the items of a declaration behind its kind, of which `items` are known, the last one
first. -/
def readItems (path : List PathStep) (kind : DefKind) (items : List Json) (cs : List Char) :
    Except DocumentError Declared :=
  match h : Json.readItemStart false cs with
  | .error startFault => .error (ofFault path startFault)
  | .ok (.close rest) => .ok (TypeDef.ofItems kind items.reverse, rest)
  | .ok (.item rest) =>
    have := (Json.readItemStart_item_length h).2 rfl
    match hp : readPart (path ++ [.item (items.length + 1)]) rest with
    | .error error => .error error
    | .ok (value, rest) =>
      have := readPart_length hp
      readItems path kind (value :: items) rest
termination_by cs.length

/-- Reads the text of a declaration. -/
def readTypeDef (path : List PathStep) (cs : List Char) : Except DocumentError Declared :=
  match Json.skipBlanks cs with
  | [] => .error (ofFault path (.before .endInValue []))
  | c :: rest =>
    if c = '\x7b' then readMembers path true none [] rest
    else if c = '[' then
      match Json.readItemStart true rest with
      | .error startFault => .error (ofFault path startFault)
      | .ok (.close rest) => .error (fault path (.missingField "kind") rest)
      | .ok (.item rest) =>
        match readKind (path ++ [.item 0]) rest with
        | .error error => .error error
        | .ok (kind, rest) => readItems path kind [] rest
    else .error (refuse path "internally tagged enum TypeDef" c rest)

theorem readMembers_length {path : List PathStep} {first : Bool} {kind : Option DefKind}
    {members : List (String × Json)} {cs rest : List Char} {reading : Reading TypeDef}
    (h : readMembers path first kind members cs = .ok (reading, rest)) :
    rest.length < cs.length := by
  fun_induction readMembers path first kind members cs <;> simp_all <;> try omega
  rename_i hs
  exact Json.readMemberStart_length hs (.inl rfl)

theorem readItems_length {path : List PathStep} {kind : DefKind} {items : List Json}
    {cs rest : List Char} {reading : Reading TypeDef}
    (h : readItems path kind items cs = .ok (reading, rest)) : rest.length < cs.length := by
  fun_induction readItems path kind items cs <;> simp_all <;> try omega
  rename_i hs
  exact Json.readItemStart_close_length hs

theorem readTypeDef_length {path : List PathStep} {cs rest : List Char} {reading : Reading TypeDef}
    (h : readTypeDef path cs = .ok (reading, rest)) : rest.length < cs.length := by
  unfold readTypeDef at h
  split at h
  · simp at h
  · rename_i hs
    have := Json.length_of_skipBlanks_eq_cons hs
    split at h
    · have := readMembers_length h
      omega
    · split at h
      · split at h
        · simp at h
        · simp at h
        · rename_i hi
          have := (Json.readItemStart_item_length hi).1
          split at h
          · simp at h
          · rename_i hk
            have := readKind_length hk
            have := readItems_length h
            omega
      · simp at h

/-! ## The document -/

/-- Reads the declarations from the index `index` on. -/
def readDeclarations (path : List PathStep) (first : Bool) (index : Nat) (cs : List Char) :
    Except DocumentError (List TypeDef × List Char) :=
  let here := path ++ [.item index]
  match h : Json.readItemStart first cs with
  | .error startFault => .error (ofFault path startFault)
  | .ok (.close rest) => .ok ([], rest)
  | .ok (.item rest) =>
    have := (Json.readItemStart_item_length h).1
    match hd : readTypeDef here rest with
    | .error error => .error error
    | .ok (.error cause, rest) => .error (fault here cause (pastArray rest))
    | .ok (.ok declaration, rest) =>
      have := readTypeDef_length hd
      match readDeclarations path false (index + 1) rest with
      | .error error => .error error
      | .ok (others, rest) => .ok (declaration :: others, rest)
termination_by cs.length

/-- Reads the list of declarations. -/
def readTypes (path : List PathStep) (cs : List Char) :
    Except DocumentError (List TypeDef × List Char) :=
  match Json.skipBlanks cs with
  | [] => .error (ofFault path (.before .endInValue []))
  | c :: rest =>
    if c = '[' then readDeclarations path true 0 rest else .error (refuse path "a sequence" c rest)

theorem readDeclarations_length {path : List PathStep} {first : Bool} {index : Nat}
    {cs rest : List Char} {types : List TypeDef}
    (h : readDeclarations path first index cs = .ok (types, rest)) : rest.length < cs.length := by
  fun_induction readDeclarations path first index cs generalizing types rest <;> simp_all
  · rename_i hs
    have := Json.readItemStart_close_length hs
    grind
  · omega

theorem readTypes_length {path : List PathStep} {cs rest : List Char} {types : List TypeDef}
    (h : readTypes path cs = .ok (types, rest)) : rest.length < cs.length := by
  unfold readTypes at h
  split at h
  · simp at h
  · rename_i hs
    have := Json.length_of_skipBlanks_eq_cons hs
    split at h
    · have := readDeclarations_length h
      omega
    · simp at h

/-- Reads the members of a document. Others than `types` are passed over. -/
def readDocumentMembers (first : Bool) (types : Option (List TypeDef)) (cs : List Char) :
    Except DocumentError Document :=
  match h : Json.readMemberStart first cs with
  | .error startFault => .error (ofFault [.unnamed] startFault)
  | .ok (.close rest) =>
    match types with
    | none => .error (fault [] (.missingField "types") rest)
    | some types => .ok ⟨types⟩
  | .ok (.name name rest) =>
    have := Json.readMemberStart_length h (.inr ⟨name, rfl⟩)
    if name = "types" ∧ types.isSome then
      .error (fault [] (.duplicateField name) (pastObject rest))
    else
      match hc : readColon [] rest with
      | .error error => .error error
      | .ok afterColon =>
        have := readColon_length hc
        if name = "types" then
          match ht : readTypes [.member name] afterColon with
          | .error error => .error error
          | .ok (types, rest) =>
            have := readTypes_length ht
            readDocumentMembers false (some types) rest
        else
          match hv : Json.skipValue afterColon with
          | .error skipped => .error (ofFault [.member name] skipped)
          | .ok rest =>
            have := Json.skipRun_length hv
            readDocumentMembers false types rest
termination_by cs.length

/-- Reads a document that is an array with the list of declarations as its only item. -/
def readDocumentItems (cs : List Char) : Except DocumentError Document :=
  match Json.readItemStart true cs with
  | .error startFault => .error (ofFault [] startFault)
  | .ok (.close rest) =>
    .error (fault [] (.invalidLength 0 "struct SchemaDocument with 1 element") rest)
  | .ok (.item rest) =>
    match readTypes [.item 0] rest with
    | .error error => .error error
    | .ok (types, rest) =>
      match Json.skipBlanks rest with
      | [] => .error (ofFault [] (.before .endInArray []))
      | c :: rest =>
        if c = ']' then .ok ⟨types⟩
        else if c ≠ ',' then .error (ofFault [] (.on .trailingCharacters (c :: rest)))
        else
          let rest := Json.skipBlanks rest
          let cause := if rest.head? = some ']' then .trailingComma else .trailingCharacters
          .error (ofFault [] (.on cause rest))

/-- The document of a text. -/
def read (text : String) : Except DocumentError Document :=
  match Json.skipBlanks text.toList with
  | [] => .error (ofFault [] (.before .endInValue []))
  | c :: rest =>
    if c = '\x7b' then readDocumentMembers true none rest
    else if c = '[' then readDocumentItems rest
    else .error (refuse [] "struct SchemaDocument" c rest)

end TaggedUnion.Document
