import TaggedUnion.Decimal.Binary64

/-!
# Runtime values

A runtime value is a JSON value. Integers that fit 64 bits are kept as integers, all other numbers
as finite doubles, and the members of an object keep their order.

* `Json.member?`: the value of an object's member.
* `Json.insert`: a member list with one member set; a name that is already there keeps its place.
* `Json.merged`: the value in which no object has two members of one name.
-/

namespace TaggedUnion

/-- A number of a runtime value. -/
inductive Number where
  | integer (value : Int)
  | double (value : Binary64)
  deriving DecidableEq, Repr

namespace Number

/-- Whether the number is a zero, of either sign. -/
def isZero : Number → Bool
  | integer value => value = 0
  | double value => value.isZero

/-- The number as a signed word of 64 bits. -/
def int64? : Number → Option Int
  | integer value =>
    if -9223372036854775808 ≤ value ∧ value ≤ 9223372036854775807 then some value else none
  | double _ => none

/-- The number as a double. A word of 64 bits is rounded. -/
def toDouble? : Number → Option Binary64
  | integer value => Binary64.round (value < 0) value.natAbs 1
  | double value => some value

end Number

/-- A JSON value. -/
inductive Json where
  | null
  | bool (value : Bool)
  | number (value : Number)
  | string (value : String)
  | array (items : List Json)
  | object (members : List (String × Json))
  deriving Repr, Inhabited

/-- The kinds of JSON values. -/
inductive JsonKind where
  | null
  | bool
  | number
  | string
  | array
  | object
  deriving DecidableEq, Repr

namespace Json

/-- The kind of a value. -/
def kind : Json → JsonKind
  | null => .null
  | bool _ => .bool
  | number _ => .number
  | string _ => .string
  | array _ => .array
  | object _ => .object

/-- Whether the value is null. -/
def isNull : Json → Bool
  | null => true
  | _ => false

/-- The member of an object with a given name. -/
def member? (name : String) : Json → Option Json
  | object members => members.lookup name
  | _ => none

/-- Sets one member: a member of that name keeps its place and gets the new value, a new one goes
to the end. -/
def insert (name : String) (value : Json) : List (String × Json) → List (String × Json)
  | [] => [(name, value)]
  | (other, old) :: rest =>
    if other = name then (other, value) :: rest else (other, old) :: insert name value rest

mutual

/-- The value with each object's members set one after the other, so that a repeated name keeps its
first place and its last value. -/
def merged : Json → Json
  | array items => array (mergedItems items)
  | object members => object ((mergedMembers members).foldl (fun set m => insert m.1 m.2 set) [])
  | value => value

/-- `merged` for each item. -/
def mergedItems : List Json → List Json
  | [] => []
  | item :: items => item.merged :: mergedItems items

/-- `merged` for the value of each member. -/
def mergedMembers : List (String × Json) → List (String × Json)
  | [] => []
  | (name, value) :: rest => (name, value.merged) :: mergedMembers rest

end

end Json

end TaggedUnion
