import TaggedUnion.InputType.Induction
import TaggedUnion.Union.Discriminator

/-!
# Why checks end

Parts of a value or a literal are smaller than the whole. Without going to a part, a type is
replaced by one inside it, a reference by the named type that it stands for, and a union by one of
its candidates. That cannot go on for ever, even where a function given to a union answers with more
types than a list could hold, since each answer is a part of the union.

* `InputType.Before`: the types that a type is replaced by.
* `wellFounded_before`: no type can be replaced again and again.
-/

namespace TaggedUnion

/-- What a type can be replaced by without going to a part of a value. -/
inductive InputType.Before : InputType → InputType → Prop where
  | item {item : InputType} : Before item (.list item)
  | inner {inner : InputType} : Before inner (.nonNull inner)
  | target {name : String} {type : NamedType} : Before (.named type) (.reference name)
  | candidate {union : UnionType} {type : NamedType} (h : union.Holds (.named type)) :
    Before (.named type) (.named (.union union))
  | wrapper {union : UnionType} {key : String} {payload : NamedType}
    (h : union.Holds (.named payload)) :
    Before (.named (.object (wrapperOf key payload))) (.named (.union union))

theorem ensureCandidate_eq {union key : String} {type : InputType} {named : NamedType}
    (h : ensureCandidate union key type = .ok named) : type = .named named := by
  unfold ensureCandidate at h
  split at h
  · split at h
    · simp at h
    · simp_all
  · simp at h

/-- What the lookup of a union finds is in it, or is made for it as a wrapper. -/
theorem before_of_resolve {union : UnionType} {name key : String} {type : NamedType}
    (h : union.lookup.resolve name key = .ok type) :
    InputType.Before (.named type) (.named (.union union)) := by
  unfold Lookup.resolve at h
  split at h
  · split at h
    · rename_i hlookup _ _ hentry
      cases h
      obtain ⟨before, after, rfl, -⟩ := List.lookup_eq_some_iff.mp hentry
      exact .candidate (.found (hlookup ▸ .entry (List.mem_append_right _ List.mem_cons_self)))
    · cases h
  · split at h
    · rename_i hlookup _ answer hanswer
      unfold candidate at h
      split at h
      · unfold wrapper at h
        cases hpayload : ensureCandidate name key answer with
        | error error => simp [hpayload, Except.map] at h
        | ok payload =>
          rw [hpayload] at h
          cases h
          obtain rfl := ensureCandidate_eq hpayload
          exact .wrapper (.found (hlookup ▸ .answer hanswer))
      · obtain rfl := ensureCandidate_eq h
        exact .candidate (.found (hlookup ▸ .answer hanswer))
    · cases h
  · cases h

theorem acc_before (type : InputType) : Acc InputType.Before type := by
  have hnamed : ∀ type : InputType, ∀ named, type = .named named → Acc InputType.Before type := by
    intro type
    induction type using typeInduction with
    | builtin scalar => exact fun _ _ => .intro _ nofun
    | enum enum => exact fun _ _ => .intro _ nofun
    | object object => exact fun _ _ => .intro _ nofun
    | union union ih =>
      intro _ _
      refine .intro _ fun type hbefore => ?_
      cases hbefore with
      | candidate h => exact ih _ h _ rfl
      | wrapper => exact .intro _ nofun
    | list => exact nofun
    | nonNull => exact nofun
    | reference => exact nofun
  induction type using typeInduction with
  | list item ih =>
    refine .intro _ fun type hbefore => ?_
    cases hbefore
    exact ih
  | nonNull inner ih =>
    refine .intro _ fun type hbefore => ?_
    cases hbefore
    exact ih
  | reference name =>
    refine .intro _ fun type hbefore => ?_
    cases hbefore
    exact hnamed _ _ rfl
  | _ => exact hnamed _ _ rfl

/-- **No type is replaced for ever.** -/
theorem wellFounded_before : WellFounded InputType.Before := ⟨acc_before⟩

/-- Recursions over types go on to what a type is replaced by. -/
instance : WellFoundedRelation InputType := ⟨InputType.Before, wellFounded_before⟩

instance : Inhabited InputType := ⟨.reference ""⟩

section Union

variable {union : UnionType} {type : NamedType}

theorem UnionType.before_of_typeOfValue {value : Json} (h : union.typeOfValue value = .ok type) :
    InputType.Before (.named type) (.named (.union union)) := by
  unfold typeOfValue at h
  split at h
  · cases h
  · exact before_of_resolve h

theorem UnionType.before_of_typeOfNode {source : Source} {node : Literal.Node}
    (h : union.typeOfNode source node = .ok type) :
    InputType.Before (.named type) (.named (.union union)) := by
  unfold typeOfNode at h
  split at h
  · cases h
  · rename_i target htarget
    obtain rfl := ensureCandidate_eq h
    unfold literalTarget at htarget
    split at htarget
    · rename_i hliteral
      split at htarget
      · rename_i hanswer
        cases htarget
        exact .candidate (.chosen hliteral hanswer)
      · cases htarget
    · split at htarget <;> cases htarget
    · split at htarget <;> cases htarget
  · exact before_of_resolve h

end Union

end TaggedUnion
