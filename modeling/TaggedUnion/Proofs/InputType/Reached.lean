import TaggedUnion.Registry

/-!
# The types that a type leads to

What a type leads to through items, references and fields, without going into unions.

* `InputType.Reaches`: the named types among them.
* `InputType.AllReached`: what holds of every one.
-/

namespace TaggedUnion

/-- The named types that a type leads to through lists, references and fields. -/
inductive InputType.Reaches (registry : Registry) : InputType → NamedType → Prop where
  | here {type : NamedType} : Reaches registry (.named type) type
  | list {item : InputType} {type : NamedType} (h : Reaches registry item type) :
    Reaches registry (.list item) type
  | nonNull {inner : InputType} {type : NamedType} (h : Reaches registry inner type) :
    Reaches registry (.nonNull inner) type
  | reference {name : String} {target type : NamedType} (hget : registry.get? name = some target)
    (h : Reaches registry (.named target) type) : Reaches registry (.reference name) type
  | field {object : ObjectType} {field : Field} {type : NamedType} (hmem : field ∈ object.fields)
    (h : Reaches registry field.type type) : Reaches registry (.named (.object object)) type

/-- Every named type that a type leads to has a property. -/
def InputType.AllReached (registry : Registry) (p : NamedType → Prop) (type : InputType) : Prop :=
  ∀ reached, type.Reaches registry reached → p reached

namespace InputType.AllReached

variable {registry : Registry} {p : NamedType → Prop}

theorem here {type : NamedType} (h : (InputType.named type).AllReached registry p) : p type :=
  h type .here

theorem item {item : InputType} (h : (InputType.list item).AllReached registry p) :
    item.AllReached registry p :=
  fun reached hreached => h reached (.list hreached)

theorem inner {inner : InputType} (h : (InputType.nonNull inner).AllReached registry p) :
    inner.AllReached registry p :=
  fun reached hreached => h reached (.nonNull hreached)

theorem target {name : String} {type : NamedType}
    (h : (InputType.reference name).AllReached registry p) (hget : registry.get? name = some type) :
    (InputType.named type).AllReached registry p :=
  fun reached hreached => h reached (.reference hget hreached)

theorem field {object : ObjectType} {field : Field}
    (h : (InputType.named (.object object)).AllReached registry p) (hmem : field ∈ object.fields) :
    field.type.AllReached registry p :=
  fun reached hreached => h reached (.field hmem hreached)

end InputType.AllReached

end TaggedUnion
