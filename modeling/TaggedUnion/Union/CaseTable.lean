import TaggedUnion.Json.Basic
import TaggedUnion.Literal.Node

/-!
# Case tables

The functions of a union can be given as finite tables: the first case that applies decides, and an
outcome stands for all that no case covers. The conditions are on keys, runtime values or literals.
-/

namespace TaggedUnion

/-- A list of cases, each with a condition and an outcome, and the outcome when none applies. -/
structure CaseTable (Condition Outcome : Type) where
  cases : List (Condition × Outcome)
  otherwise : Outcome
  deriving Repr

namespace CaseTable

variable {Condition Outcome : Type}

/-- The outcome of the first case whose condition holds. -/
def select (holds : Condition → Bool) (table : CaseTable Condition Outcome) : Outcome :=
  ((table.cases.find? fun case => holds case.1).map Prod.snd).getD table.otherwise

end CaseTable

/-- Conditions on things of some type. -/
class Condition (κ : Type) (α : outParam Type) where
  /-- Whether a thing meets the condition. -/
  holds : α → κ → Bool

/-- The one condition on a key is which one it is. -/
instance : Condition String String := ⟨fun key name => name = key⟩

/-- A condition on a runtime value. -/
inductive ValueCondition where
  | hasMember (name : String)
  | isKind (kind : JsonKind)
  deriving DecidableEq, Repr

/-- Whether a runtime value meets the condition. -/
def ValueCondition.holds (value : Json) : ValueCondition → Bool
  | hasMember name => (value.member? name).isSome
  | isKind kind => value.kind = kind

instance : Condition ValueCondition Json := ⟨ValueCondition.holds⟩

/-- A condition on a literal. -/
inductive LiteralCondition where
  | isKind (kind : Literal.Kind)
  | hasField (name : String)
  /-- The field with that index has that name. -/
  | fieldAt (index : Nat) (name : String)
  /-- The first field of that name is a string, an enum value or a number with that text. -/
  | fieldText (name text : String)
  /-- The literal itself is a string, an enum value or a number with that text. -/
  | hasText (text : String)
  deriving DecidableEq, Repr

/-- Whether a literal meets the condition. -/
def LiteralCondition.holds (node : Literal.Node) : LiteralCondition → Bool
  | isKind kind => node.kind = kind
  | hasField name => (node.field? name).isSome
  | fieldAt index name =>
    ((node.fields?.getD [])[index]?.map fun field => field.name.text) = some name
  | fieldText name text =>
    ((node.field? name).bind fun field => field.value.scalarText?) = some text
  | hasText text => node.scalarText? = some text

instance : Condition LiteralCondition Literal.Node := ⟨LiteralCondition.holds⟩

namespace CaseTable

variable {κ α β : Type} [Condition κ α]

/-- The function that a table describes. -/
def apply (table : CaseTable κ β) (a : α) : β := table.select (Condition.holds a)

/-- A table stands for the function that it describes. -/
instance : CoeOut (CaseTable κ β) (α → β) := ⟨apply⟩

instance : CoeOut (Option (CaseTable κ β)) (Option (α → β)) := ⟨Option.map apply⟩

end CaseTable

end TaggedUnion
