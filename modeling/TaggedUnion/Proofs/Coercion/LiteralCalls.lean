import Mathlib
import TaggedUnion.Proofs.Coercion.Calls
import TaggedUnion.Proofs.Coercion.NodeInduction

/-!
# Calls on one literal

The conversion of literals within a limit of calls, as for the check of values. A union may lead
from a literal to an answer of its function without a key.

* `InputType.convertWithin`, `UnionType.parseLiteralWithin`: the conversion within a limit of calls.
* `convertWithin_eq`: with as many calls as the bound says, the conversion runs as without a limit.
* `within_callLimit`: the limit for values and for literals.
-/

namespace TaggedUnion

mutual

/-- The conversion of a literal under a type with `calls` calls left for this literal, and `limit`
for each of its parts. There is no outcome if they do not last. -/
def InputType.convertWithin (registry : Registry) (source : Source) (limit calls : Nat)
    (node : Literal.Node) (type : InputType) : Option (Option Json) :=
  match calls with
  | 0 => none
  | calls + 1 =>
    match type with
    | .nonNull inner =>
      (inner.convertWithin registry source limit calls node).map fun outcome =>
        outcome.filter fun value => !value.isNull
    | .reference name =>
      if node.kind = .null then some (some .null)
      else
        match registry.get? name with
        | some type => (InputType.named type).convertWithin registry source limit calls node
        | none => some none
    | .list item =>
      match h : node.value with
      | .null => some (some .null)
      | .list items =>
        have : sizeOf items < sizeOf node := by
          have := Literal.sizeOf_value_lt node
          rw [h] at this
          simp at this
          omega
        (convertItemsWithin registry source limit item items).map fun outcome =>
          outcome.map .array
      | _ =>
        (item.convertWithin registry source limit calls node).map fun outcome =>
          outcome.map fun value => .array [value]
    | .named type =>
      if node.kind = .null then some (some .null)
      else
        match type with
        | .builtin scalar => some (scalar.parseLiteral source node).toOption
        | .enum enum => some (enum.convert node)
        | .object object =>
          match h : node.value with
          | .object given =>
            have : sizeOf given < sizeOf node := by
              have := Literal.sizeOf_value_lt node
              rw [h] at this
              simp at this
              omega
            if given.all fun field => (object.field? field.name.text).isSome then
              (convertFieldsWithin registry source limit given object.fields).map fun outcome =>
                outcome.map .object
            else some none
          | _ => some none
        | .union u =>
          (u.parseLiteralWithin registry source limit calls node).map Except.toOption
termination_by (sizeOf node, calls)

/-- The rule of a union on a literal, with `calls` calls left for this literal. -/
def UnionType.parseLiteralWithin (registry : Registry) (source : Source) (limit calls : Nat)
    (node : Literal.Node) (union : UnionType) : Option (Except UnionError Json) :=
  match calls with
  | 0 => none
  | calls + 1 =>
    match union.typeOfNode source node with
    | .error error => some (.error error)
    | .ok type =>
      ((InputType.named type).convertWithin registry source limit calls node).map fun outcome =>
        match outcome with
        | some value => .ok value
        | none => .error (.literalTypeMismatch union.name type.name (source.slice node.span))
termination_by (sizeOf node, calls)

/-- The conversion of the items of a list, each with `limit` calls of its own. -/
def convertItemsWithin (registry : Registry) (source : Source) (limit : Nat) (item : InputType)
    (items : List Literal.Node) : Option (Option (List Json)) :=
  match items with
  | [] => some (some [])
  | node :: rest =>
    (item.convertWithin registry source limit limit node).bind fun first =>
      match first with
      | none => some none
      | some value =>
        (convertItemsWithin registry source limit item rest).map fun others =>
          others.map (value :: ·)
termination_by (sizeOf items, 0)

/-- The conversion of the fields of an object, each with `limit` calls of its own. -/
def convertFieldsWithin (registry : Registry) (source : Source) (limit : Nat)
    (given : List Literal.Field) (fields : List Field) : Option (Option (List (String × Json))) :=
  match fields with
  | [] => some (some [])
  | field :: rest =>
    let outcome? :=
      match h : given.find? fun other => other.name.text = field.name with
      | some found =>
        have := Literal.sizeOf_value_lt_of_find h
        (field.type.convertWithin registry source limit limit found.value).map
          fun outcome : Option Json => outcome.map fun value => [(field.name, value)]
      | none => some (defaultMember? field)
    outcome?.bind fun first =>
      match first with
      | none => some none
      | some members =>
        (convertFieldsWithin registry source limit given rest).map fun others =>
          others.map (members ++ ·)
termination_by (sizeOf given, sizeOf fields)

end

section

variable {registry : Registry} {source : Source} {limit : Nat}

theorem convertItemsWithin_eq {item : InputType} {items : List Literal.Node}
    (hitem : ∀ node ∈ items, item.convertWithin registry source limit limit node =
      some (item.convert registry source node)) :
    convertItemsWithin registry source limit item items =
      some (convertItems registry source item items) := by
  induction items with
  | nil => rw [convertItemsWithin.eq_def, convertItems_nil]
  | cons node rest ih =>
    obtain ⟨hnode, hrest⟩ := List.forall_mem_cons.mp hitem
    rw [convertItemsWithin.eq_def, convertItems_cons]
    simp only [hnode, ih hrest, Option.bind_some]
    cases item.convert registry source node <;> rfl

/-- The conversion of a declared field, with `limit` calls for the given one. -/
def convertFieldWithin (registry : Registry) (source : Source) (limit : Nat)
    (given : List Literal.Field) (field : Field) : Option (Option (List (String × Json))) :=
  match given.find? fun other => other.name.text = field.name with
  | some found =>
    (field.type.convertWithin registry source limit limit found.value).map
      fun outcome : Option Json => outcome.map fun value => [(field.name, value)]
  | none => some (defaultMember? field)

theorem convertFieldsWithin_cons {given : List Literal.Field} {field : Field}
    {rest : List Field} :
    convertFieldsWithin registry source limit given (field :: rest) =
      (convertFieldWithin registry source limit given field).bind fun first =>
        match first with
        | none => some none
        | some members =>
          (convertFieldsWithin registry source limit given rest).map fun others =>
            others.map (members ++ ·) := by
  rw [convertFieldsWithin.eq_def]
  simp only [convertFieldWithin]
  split
  · rename_i heq
    simp only [heq]
  · rename_i heq
    simp only [heq]

theorem convertFieldsWithin_eq {given : List Literal.Field} {fields : List Field}
    (hfield : ∀ field ∈ fields, ∀ found,
      given.find? (fun other => other.name.text = field.name) = some found →
        field.type.convertWithin registry source limit limit found.value =
          some (field.type.convert registry source found.value)) :
    convertFieldsWithin registry source limit given fields =
      some (convertFields registry source given fields) := by
  induction fields with
  | nil => rw [convertFieldsWithin.eq_def, convertFields_nil]
  | cons field rest ih =>
    obtain ⟨hfirst, hrest⟩ := List.forall_mem_cons.mp hfield
    have hfield : convertFieldWithin registry source limit given field =
        some (convertField registry source given field) := by
      unfold convertFieldWithin convertField
      cases hfind : given.find? fun other => other.name.text = field.name with
      | some found => simp only [hfirst found hfind, Option.map_some]
      | none => rfl
    rw [convertFieldsWithin_cons, convertFields_cons, hfield, ih hrest]
    cases convertField registry source given field <;> rfl

/-- The rule of a union needs a call more than the candidate that it leads to. -/
theorem parseLiteralWithin_eq_of_candidate {union : UnionType} {node : Literal.Node} {calls : Nat}
    (h : ∀ type, union.typeOfNode source node = .ok type →
      (InputType.named type).convertWithin registry source limit calls node =
        some ((InputType.named type).convert registry source node)) :
    union.parseLiteralWithin registry source limit (calls + 1) node =
      some (union.parseLiteral registry source node) := by
  rw [UnionType.parseLiteralWithin.eq_def]
  cases htype : union.typeOfNode source node with
  | error error => simp [parseLiteral_of_typeOfNode_error htype]
  | ok type =>
    simp only [h type htype, parseLiteral_of_typeOfNode htype, Option.map_some, gateLiteral]
    cases (InputType.named type).convert registry source node <;> rfl

variable {registrySize size : Nat}

/-- **The conversion within a limit.** With as many calls as its bound says, a conversion runs as
without a limit. -/
theorem convertWithin_eq (hregistry : registry.Sized registrySize) (hle : registrySize ≤ size)
    {type : InputType} {node : Literal.Node} {n calls : Nat} (hsized : type.Sized n)
    (hn : n ≤ size) (hcalls : type.callBound registrySize n ≤ calls) :
    type.convertWithin registry source (2 * (size + registrySize)) calls node =
      some (type.convert registry source node) := by
  induction type, node using nodeInduction registry source generalizing n calls with
  | null type node hnonNull hnull =>
    obtain ⟨calls, rfl⟩ := exists_call hsized hcalls
    rw [InputType.convertWithin.eq_def, convert_null hnonNull hnull]
    cases type with
    | nonNull inner => cases hnonNull
    | list item =>
      simp only []
      split <;> simp_all
    | _ => simp [hnull]
  | nonNull inner node ih =>
    cases hsized with
    | nonNull hinner =>
      obtain ⟨spare, rfl⟩ :=
        Nat.exists_eq_add_of_lt (Nat.lt_of_lt_of_le (callBound_lt inner) hcalls)
      rw [InputType.convertWithin.eq_def, convert_nonNull]
      simp only [ih hinner (Nat.le_of_succ_le hn) (Nat.le_add_right _ spare), Option.map_some]
  | reference name node hnull ih =>
    cases hsized with
    | reference =>
      cases hget : registry.get? name with
      | none =>
        obtain ⟨calls, rfl⟩ := exists_call .reference hcalls
        rw [InputType.convertWithin.eq_def, convert_reference hnull]
        simp [hnull, hget]
      | some type =>
        obtain ⟨m, hm, htype⟩ := hregistry type (List.mem_of_find?_eq_some hget)
        obtain ⟨spare, rfl⟩ := Nat.exists_eq_add_of_lt
          (Nat.lt_of_lt_of_le (callBound_lt_of_le type hm) hcalls)
        rw [InputType.convertWithin.eq_def, convert_reference hnull]
        simpa [hnull, hget] using
          ih type hget htype (Nat.le_trans hm hle) (Nat.le_add_right _ spare)
  | list item node items hvalue ih =>
    obtain ⟨calls, rfl⟩ := exists_call hsized hcalls
    cases hsized with
    | list hitem =>
      have hn := Nat.le_of_succ_le hn
      have hitems := convertItemsWithin_eq fun part hmem => ih part hmem hitem hn (callBound_le hn)
      rw [InputType.convertWithin.eq_def, convert_list hvalue]
      simp only []
      split <;> simp_all
  | lone item node hnull hlist ih =>
    cases hsized with
    | list hitem =>
      obtain ⟨spare, rfl⟩ := Nat.exists_eq_add_of_lt (Nat.lt_of_lt_of_le (callBound_lt item) hcalls)
      have hlone := ih hitem (Nat.le_of_succ_le hn) (Nat.le_add_right _ spare)
      rw [InputType.convertWithin.eq_def, convert_lone hnull hlist]
      simp only [hlone, Option.map_some]
  | builtin scalar node hnull =>
    obtain ⟨calls, rfl⟩ := exists_call hsized hcalls
    rw [InputType.convertWithin.eq_def, convert_builtin hnull]
    simp [hnull]
  | enum enum node hnull =>
    obtain ⟨calls, rfl⟩ := exists_call hsized hcalls
    rw [InputType.convertWithin.eq_def, convert_enum hnull]
    simp [hnull]
  | object object node given hvalue ih =>
    obtain ⟨calls, rfl⟩ := exists_call hsized hcalls
    rw [InputType.convertWithin.eq_def, convert_object hvalue]
    have hfields : convertFieldsWithin registry source (2 * (size + registrySize)) given
        object.fields = some (convertFields registry source given object.fields) := by
      refine convertFieldsWithin_eq fun field hmem found hfind => ?_
      obtain ⟨fieldSize, hlt, hfield⟩ := Field.sized_of_mem hsized hmem
      exact ih field hmem found hfind hfield (by omega) (callBound_le (by omega))
    simp only [Literal.Node.kind_eq_null]
    split
    · simp_all
    · split
      · rename_i given' hvalue'
        cases hvalue.symm.trans hvalue'
        rw [hfields]
        split <;> rfl
      · simp_all
  | other object node hnull hobject =>
    obtain ⟨calls, rfl⟩ := exists_call hsized hcalls
    rw [InputType.convertWithin.eq_def, convert_not_object hnull hobject]
    simp only [Literal.Node.kind_eq_null, hnull, ↓reduceIte]
  | union union node hnull ih =>
    obtain ⟨spare, rfl, hspare⟩ := exists_two_calls hsized hcalls
    have hparse : union.parseLiteralWithin registry source (2 * (size + registrySize)) (spare + 1)
        node = some (union.parseLiteral registry source node) := by
      refine parseLiteralWithin_eq_of_candidate fun type htype => ?_
      obtain ⟨m, hlt, hm⟩ := NamedType.sized_of_before hsized
        (UnionType.before_of_typeOfNode htype)
      exact ih type htype hm (by omega) (hspare type hlt)
    rw [InputType.convertWithin.eq_def, convert_union hnull]
    simp [hnull, hparse]

/-- The rule of a union runs within the limit as without one. -/
theorem parseLiteralWithin_eq (hregistry : registry.Sized registrySize) (hle : registrySize ≤ size)
    {union : UnionType} (node : Literal.Node) {n calls : Nat}
    (hsized : (InputType.named (.union union)).Sized n) (hn : n ≤ size) (hcalls : 2 * n ≤ calls) :
    union.parseLiteralWithin registry source (2 * (size + registrySize)) calls node =
      some (union.parseLiteral registry source node) := by
  have hbound : (InputType.named (.union union)).callBound registrySize n ≤ calls := hcalls
  obtain ⟨calls, rfl⟩ := exists_call hsized hbound
  refine parseLiteralWithin_eq_of_candidate fun type htype => ?_
  obtain ⟨m, hlt, hm⟩ := NamedType.sized_of_before hsized (UnionType.before_of_typeOfNode htype)
  refine convertWithin_eq hregistry hle hm (by omega) ?_
  simp only [InputType.callBound]
  omega

end

/-- **Calls on one value or literal.** The check, the conversion and the rules of a union all end
with `callLimit` calls on each value, which the sizes of the type and of the registered types give,
whatever types lead back to themselves. Types have sizes where the functions of unions have finitely
many answers, as case tables do. -/
theorem within_callLimit (registry : Registry) (source : Source) :
    ((∀ union : UnionType, union.HasCaseTables → ∃ parts, union.Lists parts) ∧
      (∀ type : InputType, type.IsFinite → ∃ size, type.Sized size) ∧
      ((∀ type ∈ registry.types, (InputType.named type).IsFinite) →
        ∃ registrySize, registry.Sized registrySize)) ∧
    ∀ registrySize size, registry.Sized registrySize →
      (∀ (type : InputType) (value : Json), type.Sized size →
        type.coerceWithin registry (callLimit registrySize size) (callLimit registrySize size)
          value = some (type.coerce registry value)) ∧
      (∀ (type : InputType) (node : Literal.Node), type.Sized size →
        type.convertWithin registry source (callLimit registrySize size)
          (callLimit registrySize size) node = some (type.convert registry source node)) ∧
      (∀ (union : UnionType) (value : Json), (InputType.named (.union union)).Sized size →
        union.parseValueWithin registry (callLimit registrySize size)
          (callLimit registrySize size) value = some (union.parseValue registry value)) ∧
      ∀ (union : UnionType) (node : Literal.Node), (InputType.named (.union union)).Sized size →
        union.parseLiteralWithin registry source (callLimit registrySize size)
          (callLimit registrySize size) node =
            some (union.parseLiteral registry source node) := by
  refine ⟨⟨fun _ => UnionType.exists_lists, fun _ => InputType.exists_sized,
    Registry.exists_sized⟩, fun registrySize size hregistry => ?_⟩
  have hle : registrySize ≤ size + registrySize := Nat.le_add_left _ _
  have hsize : size ≤ size + registrySize := Nat.le_add_right _ _
  have hcalls : 2 * size ≤ callLimit registrySize size := by
    simp only [callLimit]
    omega
  refine ⟨fun type value h => ?_, fun type node h => ?_, fun union value h => ?_,
    fun union node h => ?_⟩
  · exact congrArg Trail.outcome? (coerceAtWithin_eq hregistry hle h hsize (callBound_le hsize))
  · exact convertWithin_eq hregistry hle h hsize (callBound_le hsize)
  · exact parseValueWithin_eq hregistry hle value h hsize hcalls
  · exact parseLiteralWithin_eq hregistry hle node h hsize hcalls

/-- A chain leads back to itself. -/
def chainType : ObjectType := ⟨"Chain", none, [⟨"next", .reference "Chain", none, none⟩]⟩

/-- Where the candidate of a union of links is found. -/
def linkTable : CaseTable String (Option InputType) :=
  ⟨[("chain", some (.named (.object chainType)))], none⟩

/-- A union with a case table for a function. -/
def linkUnion : UnionType := ⟨"Link", none, none, .deferred linkTable true, none, none⟩

theorem sized_chainType : (InputType.named (.object chainType)).Sized 2 := by
  have hfields : ∀ field ∈ chainType.fields, field.type.Sized 1 := by
    intro field hmem
    obtain rfl := List.mem_singleton.mp hmem
    exact .reference
  exact .object hfields

theorem sized_linkUnion : (InputType.named (.union linkUnion)).Sized 5 := by
  have hlists : linkUnion.Lists [.named (.object chainType)] := by
    intro type hholds
    cases hholds with
    | chosen hliteral => cases hliteral
    | found hfound =>
      cases hfound with
      | answer hanswer =>
        have hmem : type ∈ linkTable.outcomes.filterMap id :=
          CaseTable.mem_of_apply_eq_some hanswer
        simpa [linkTable, CaseTable.outcomes] using hmem
  have hparts : ∀ part ∈ [InputType.named (.object chainType)], part.Sized 2 := by
    intro part hmem
    obtain rfl := List.mem_singleton.mp hmem
    exact sized_chainType
  exact .union hlists hparts

theorem within_callLimit_chain :
    let registry : Registry := ⟨[.object chainType, .union linkUnion]⟩
    let value : Json := .object [("_type_", .string "chain"),
      ("_value_", .object [("next", .object [])])]
    registry.Sized 5 ∧ (InputType.reference "Link").Sized 1 ∧
      (InputType.reference "Link").coerceWithin registry (callLimit 5 1) (callLimit 5 1) value =
        some (.ok value) := by
  intro registry value
  have hregistry : registry.Sized 5 := by
    intro type hmem
    rcases List.mem_pair.mp hmem with rfl | rfl
    · exact ⟨2, by decide, sized_chainType⟩
    · exact ⟨5, by decide, sized_linkUnion⟩
  have hcheck := ((within_callLimit registry ⟨"", ""⟩).2 5 1 hregistry).1 (.reference "Link") value
    .reference
  refine ⟨hregistry, .reference, hcheck.trans (congrArg some ?_)⟩
  cbv

/-- A reference takes two calls on each value. -/
example :
    let registry : Registry := ⟨[.object chainType]⟩
    let chain : Json := .object [("next", .object [])]
    (InputType.reference "Chain").coerceWithin registry 2 1 chain = none ∧
      (InputType.reference "Chain").coerceWithin registry 2 2 chain = some (.ok chain) := by
  constructor <;> cbv

end TaggedUnion
