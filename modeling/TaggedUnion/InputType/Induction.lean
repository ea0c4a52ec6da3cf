import TaggedUnion.InputType.Basic

/-!
# Induction over types

A type is made of the types inside it, and a union of its candidates: those that are listed, and
those that a function given to it can answer with, however many these are.

* `Lookup.Holds`, `UnionType.Holds`: the types that a union is made of.
* `typeInduction`: what holds of each type if it holds of the types that it is made of.
-/

namespace TaggedUnion

/-- The types in a lookup: the candidates of a table, or all that a function answers with. -/
inductive Lookup.Holds : Lookup → InputType → Prop where
  | entry {entries : List (String × NamedType)} {key : String} {type : NamedType}
    (hmem : (key, type) ∈ entries) : Holds (.table entries) (.named type)
  | answer {types : String → Option InputType} {wrap : Bool} {key : String} {type : InputType}
    (h : types key = some type) : Holds (.deferred types wrap) type

/-- The types in a union: those in its lookup, and those that its function for literals answers
with. -/
inductive UnionType.Holds (union : UnionType) : InputType → Prop where
  | found {type : InputType} (h : union.lookup.Holds type) : Holds union type
  | chosen {typeOfLiteral : Literal.Node → Option InputType} {node : Literal.Node}
    {type : InputType} (hliteral : union.typeOfLiteral = some typeOfLiteral)
    (h : typeOfLiteral node = some type) : Holds union type

/-- **Induction over types.** The cases are the forms of a type. -/
theorem typeInduction {P : InputType → Prop}
    (builtin : ∀ scalar, P (.named (.builtin scalar)))
    (enum : ∀ enum, P (.named (.enum enum)))
    (object : ∀ object : ObjectType, (∀ field ∈ object.fields, P field.type) →
      P (.named (.object object)))
    (union : ∀ union : UnionType, (∀ type, union.Holds type → P type) → P (.named (.union union)))
    (list : ∀ item, P item → P (.list item))
    (nonNull : ∀ inner, P inner → P (.nonNull inner))
    (reference : ∀ name, P (.reference name)) (type : InputType) : P type := by
  -- A statement for each of the types that the declaration of types is mutual with or nested in.
  refine @InputType.rec (fun named => P (.named named)) P
    (fun object => ∀ field ∈ object.fields, P field.type) (fun field => P field.type)
    (fun union => ∀ type, union.Holds type → P type)
    (fun lookup => ∀ type, lookup.Holds type → P type)
    (fun fields => ∀ field ∈ fields, P field.type)
    (fun typeOfLiteral? => ∀ typeOfLiteral, typeOfLiteral? = some typeOfLiteral →
      ∀ node type, typeOfLiteral node = some type → P type)
    (fun entries => ∀ entry ∈ entries, P (.named entry.2))
    (fun type? => ∀ type, type? = some type → P type)
    (fun entry => P (.named entry.2))
    builtin union object enum (fun _ h => h) list nonNull reference (fun _ _ _ h => h)
    (fun _ _ _ _ h => h) ?union ?table ?deferred ?absent ?noField ?fields ?noFunction ?function
    ?noEntry ?entries ?noAnswer ?answer (fun _ _ h => h) type
  case union =>
    intro name description typeKey lookup keyOfValue typeOfLiteral? hlookup hliteral type hholds
    cases hholds with
    | found h => exact hlookup type h
    | chosen heq h => exact hliteral _ heq _ type h
  case table =>
    rintro entries hentries _ ⟨hmem⟩
    exact hentries _ hmem
  case deferred =>
    intro types wrap htypes type hholds
    cases hholds with
    | answer h => exact htypes _ type h
  case absent => rintro type ⟨⟩
  case noField => exact nofun
  case fields => exact fun _ _ hhead htail => List.forall_mem_cons.mpr ⟨hhead, htail⟩
  case noFunction => exact nofun
  case function =>
    rintro _ h _ ⟨⟩ node type hnode
    exact h node type hnode
  case noEntry => exact nofun
  case entries => exact fun _ _ hhead htail => List.forall_mem_cons.mpr ⟨hhead, htail⟩
  case noAnswer => exact nofun
  case answer =>
    rintro _ h _ ⟨⟩
    exact h

end TaggedUnion
