import TaggedUnion.Proofs.Schema.WellFormed

/-!
# The types that documents make

What a document can declare is less than what a registry can hold: fields name their types late, and
unions have a table of candidates and nothing else to choose by.

* `InputType.Declared`: the types that documents make.
* `ofReference_induction`: a type text is made of names, lists and marks for null.
* `declared_of_build`: everything in the schema of a document is of that kind.
-/

namespace TaggedUnion

/-- The types that documents make. The fields of an object have distinct names, and a union finds
its candidates by key in a table, wrapped unless there is a type key. -/
inductive InputType.Declared : InputType → Prop where
  | reference {name : String} : Declared (.reference name)
  | list {item : InputType} (hitem : Declared item) : Declared (.list item)
  | nonNull {inner : InputType} (hinner : Declared inner) : Declared (.nonNull inner)
  | builtin {scalar : Builtin} : Declared (.named (.builtin scalar))
  | enum {enum : EnumType} : Declared (.named (.enum enum))
  | object {object : ObjectType} (hdistinct : (object.fields.map Field.name).Nodup)
    (hfields : ∀ field ∈ object.fields, Declared field.type) : Declared (.named (.object object))
  | union {union : UnionType} {entries : List (String × NamedType)}
    (hvalue : union.keyOfValue = none) (hliteral : union.typeOfLiteral = none)
    (hlookup : union.lookup = .table entries)
    (hentries : ∀ entry ∈ entries, Declared (.named entry.2))
    (hwrapped : union.typeKey = none → ∀ entry ∈ entries, ∃ payload,
      entry.2 = .object (wrapperOf entry.1 payload)) : Declared (.named (.union union))

/-- A schema of declared types. -/
structure Schema.Declared (schema : Schema) : Prop where
  types : ∀ type ∈ schema.registry.types, (InputType.named type).Declared
  unions : ∀ union ∈ schema.unions, (InputType.named (.union union)).Declared

/-- **Induction over types that are read from texts.** They are names under lists and marks for
null. -/
theorem ofReference_induction {P : InputType → Prop} (reference : ∀ name, P (.reference name))
    (list : ∀ item, P item → P (.list item)) (nonNull : ∀ inner, P inner → P (.nonNull inner))
    {cs : List Char} {type : InputType} (h : InputType.ofReference cs = .ok type) : P type := by
  induction hn : cs.length using Nat.strongRecOn generalizing cs type with
  | ind n ih =>
    subst hn
    rw [InputType.ofReference.eq_def] at h
    simp only [] at h
    split at h
    · simp at h
    · rename_i c rest htrim
      have hlength := Text.trim_length cs
      rw [htrim, List.length_cons] at hlength
      split at h
      · split at h
        · simp at h
        · rename_i inner hinner
          have hlt : (c :: rest).dropLast.length < cs.length := by
            rw [List.length_dropLast, List.length_cons]
            omega
          split at h
          · simp at h
          · cases h
            exact nonNull inner (ih _ hlt hinner rfl)
      · split at h
        · split at h
          · obtain ⟨item, hitem, rfl⟩ := map_eq_ok.mp h
            have hlt : rest.dropLast.length < cs.length := by
              rw [List.length_dropLast]
              omega
            exact list item (ih _ hlt hitem rfl)
          · simp at h
        · split at h
          · cases h
            exact reference _
          · simp at h

theorem parse_declared {text : String} {type : InputType} (h : InputType.parse text = .ok type) :
    type.Declared :=
  ofReference_induction (fun _ => .reference) (fun _ => .list) (fun _ => .nonNull) h

theorem wrapperOf_declared {key : String} {payload : NamedType}
    (h : (InputType.named payload).Declared) :
    (InputType.named (.object (wrapperOf key payload))).Declared := by
  have hdistinct : [typeField, valueField].Nodup := by decide
  refine .object hdistinct fun field hfield => ?_
  rcases List.mem_pair.mp hfield with rfl | rfl
  · exact .builtin
  · exact h

namespace Document

theorem names_of_makesFields {declared : List (String × FieldDef)} {fields : List Field}
    (h : List.Forall₂ MakesField declared fields) :
    declared.map Prod.fst = fields.map Field.name ∧ ∀ field ∈ fields, field.type.Declared := by
  induction h with
  | nil => simp
  | cons hfield _ ih =>
    obtain ⟨htype, hname, -⟩ := hfield
    rw [List.map_cons, List.map_cons, hname, ih.1]
    exact ⟨rfl, List.forall_mem_cons.mpr ⟨parse_declared htype, ih.2⟩⟩

theorem MakesType.declared {declaration : TypeDef} {type : NamedType}
    (h : MakesType declaration type) : (InputType.named type).Declared := by
  cases h with
  | object hobject =>
    obtain ⟨hdistinct, -, -, hmade⟩ := objectType_eq_ok_iff.mp hobject
    obtain ⟨hnames, htypes⟩ := names_of_makesFields hmade
    exact .object (hnames ▸ hdistinct) htypes
  | enum => exact .enum

theorem unionOf_declared {declaration : UnionDef} {types : List NamedType}
    (h : ∀ type ∈ types, (InputType.named type).Declared) :
    (InputType.named (.union (declaration.unionOf types))).Declared := by
  refine .union rfl rfl rfl ?_ ?_
  · intro entry hentry
    obtain ⟨pair, hpair, rfl⟩ := List.mem_map.mp hentry
    have hpayload := h pair.2 (List.of_mem_zip hpair).2
    unfold tableEntry
    split
    · exact wrapperOf_declared hpayload
    · exact hpayload
  · intro hkey entry hentry
    obtain ⟨pair, -, rfl⟩ := List.mem_map.mp hentry
    have hkey : declaration.typeKey = none := hkey
    exact ⟨pair.2, by simp [tableEntry, hkey]⟩

theorem mem_insert {union other : UnionType} {unions : List UnionType}
    (h : other ∈ Schema.setUnion.insert union unions) : other = union ∨ other ∈ unions := by
  induction unions with
  | nil => exact .inl (List.mem_singleton.mp h)
  | cons first rest ih =>
    unfold Schema.setUnion.insert at h
    split at h
    · rcases List.mem_cons.mp h with rfl | hrest
      · exact .inl rfl
      · exact .inr (List.mem_cons_of_mem _ hrest)
    · rcases List.mem_cons.mp h with rfl | hrest
      · exact .inr List.mem_cons_self
      · exact (ih hrest).imp_right (List.mem_cons_of_mem _)

/-- Building unions keeps the schema declared. -/
theorem Grows.declared {declared : List UnionDef} {schema schema' : Schema}
    (h : Grows declared schema schema') (hschema : schema.Declared) : schema'.Declared := by
  induction h with
  | refl => exact hschema
  | @add grown declaration types _ _ htypes _ _ ih =>
    have hunion : (InputType.named (.union (declaration.unionOf types))).Declared := by
      refine unionOf_declared fun type hmem => ?_
      obtain ⟨_, -, hget⟩ := htypes.exists_name hmem
      exact ih.types type (Registry.get?_some hget).1
    refine ⟨fun type hmem => ?_, fun union hmem => ?_⟩
    · rcases List.mem_append.mp hmem with hold | hnew
      · exact ih.types type hold
      · obtain rfl := List.mem_singleton.mp hnew
        exact hunion
    · rcases mem_insert hmem with rfl | hold
      · exact hunion
      · exact ih.unions union hold

/-- **What a document builds.** Every type that is registered and every union that is known is
declared. -/
theorem declared_of_build {document : Document} {schema : Schema}
    (hbuild : document.build = .ok schema) : schema.Declared := by
  obtain ⟨_, unions, built, hcollect, -, hensure, -⟩ := build_eq_ok_iff.mp hbuild
  obtain ⟨types, hcollects, rfl, -⟩ := collect_builtins_iff.mp hcollect
  have hgrows := (ensureAll_grows (fun h => ensure_grows h) hensure).1
  refine hgrows.declared ⟨fun type hmem => ?_, by simp⟩
  rcases List.mem_append.mp hmem with hbuiltin | htype
  · obtain ⟨scalar, -, rfl⟩ := List.mem_map.mp hbuiltin
    exact .builtin
  · obtain ⟨declaration, -, hmakes⟩ := hcollects.mem_types.mp htype
    exact hmakes.declared

end Document

end TaggedUnion
