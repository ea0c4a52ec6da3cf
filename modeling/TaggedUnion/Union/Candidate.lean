import TaggedUnion.Union.Error

/-!
# Candidates of a union

* `ensureCandidate`: only object types and scalars may be candidates.
* `wrapper`: the object type `{_type_, _value_}` that stands for a candidate in a union without a
  type key.
* `Lookup.ofCandidates`: the table of candidates under distinct keys.
* `Lookup.resolve`: the candidate of a key, wrapped where the union wraps.
-/

namespace TaggedUnion

/-- The member of a wrapper that names the candidate. It is declared first. -/
def typeField : String := "_type_"

/-- The member of a wrapper that holds the value proper. It is declared second. -/
def valueField : String := "_value_"

/-- The named type, if it may be a candidate: an object type or a scalar. The error gives the name
of the type, or the key where the type has no name. -/
def ensureCandidate (union key : String) (type : InputType) : Except UnionError NamedType :=
  match type with
  | .named t =>
    match t with
    | .enum _ => .error (.invalidCandidateKind union t.name t.kind)
    | t => .ok t
  | type => .error (.invalidCandidateKind union (type.name?.getD key) type.kind)

/-- The object type named for the key, with the fields `_type_ : String` and `_value_` of the given
type, in this order. -/
def wrapperOf (key : String) (payload : NamedType) : ObjectType :=
  { name := key
    description := none
    fields :=
      [⟨typeField, .named (.builtin .string), none, none⟩,
        ⟨valueField, .named payload, none, none⟩] }

/-- The wrapper of a candidate. -/
def wrapper (union key : String) (type : InputType) : Except UnionError NamedType :=
  (ensureCandidate union key type).map fun payload => .object (wrapperOf key payload)

/-- A candidate as the union looks it up: wrapped or as it is. -/
def candidate (union : String) (wrap : Bool) (key : String) (type : InputType) :
    Except UnionError NamedType :=
  if wrap then wrapper union key type else ensureCandidate union key type

/-- The candidates that a union is configured with. -/
inductive Candidates where
  /-- Each one under its own name. -/
  | byName (types : List InputType)
  | keyed (pairs : List (String × InputType))

namespace Candidates

/-- The candidates with their keys. A type without a key has to be a candidate to have a name. -/
def pairs (union : String) : Candidates → Except UnionError (List (String × InputType))
  | keyed pairs => .ok pairs
  | byName types =>
    types.mapM fun type => (ensureCandidate union type.text type).map fun t => (t.name, type)

end Candidates

namespace Lookup

/-- Adds a candidate to the entries read so far. Its key has to be new. -/
def addEntry (union : String) (wrap : Bool) (entries : List (String × NamedType))
    (pair : String × InputType) : Except UnionError (List (String × NamedType)) :=
  if entries.any fun entry => entry.1 = pair.1 then .error (.duplicateDiscriminator union pair.1)
  else (candidate union wrap pair.1 pair.2).map fun type => entries ++ [(pair.1, type)]

/-- The entries of a table of candidates. -/
def entriesOf (union : String) (candidates : Candidates) (wrap : Bool) :
    Except UnionError (List (String × NamedType)) :=
  match candidates.pairs union with
  | .error error => .error error
  | .ok pairs => pairs.foldlM (addEntry union wrap) []

/-- The table of candidates. -/
def ofCandidates (union : String) (candidates : Candidates) (wrap : Bool) :
    Except UnionError Lookup :=
  (entriesOf union candidates wrap).map .table

/-- The keys in order, unless a function decides for each value. -/
def keys? : Lookup → Option (List String)
  | table entries => some (entries.map Prod.fst)
  | deferred _ _ => none
  | absent => none

/-- The candidate of a key. -/
def resolve (union key : String) : Lookup → Except UnionError NamedType
  | table entries =>
    match entries.lookup key with
    | some type => .ok type
    | none => .error (.unknownDiscriminatorValue union key (entries.map Prod.fst))
  | deferred types wrap =>
    match types key with
    | some type => candidate union wrap key type
    | none => .error (.unknownDiscriminatorValue union key [])
  | absent => .error (.noValueResolution union)

end Lookup

end TaggedUnion
