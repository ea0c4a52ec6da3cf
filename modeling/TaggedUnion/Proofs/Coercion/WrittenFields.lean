import TaggedUnion.Proofs.Coercion.ReadBack

/-!
# Every field that is written counts

The conversion of an object literal goes through the declared fields and looks each of them up in
the literal. Still it passes over no field that is written there, unless its name stands in front of
it already.

* `lookup_of_convertFields`: the value of a field is found under its name.
* `convertFields_of_find?_eq`: only the first field of each name matters.
* `written_of_convert`: what an accepted object literal says about each of its fields.
-/

namespace TaggedUnion

/-! ## The first field of a name -/

section First

variable {before after : List Literal.Field} {field : Literal.Field}

/-- A field whose name does not stand in front of it is the one that is looked up. -/
theorem find?_eq_of_first (h : ∀ earlier ∈ before, earlier.name.text ≠ field.name.text) :
    (before ++ field :: after).find? (fun other => other.name.text = field.name.text) =
      some field := by
  have hbefore : before.find? (fun other => other.name.text = field.name.text) = none :=
    List.find?_eq_none.mpr fun earlier hmem => by simpa using h earlier hmem
  simp [hbefore]

/-- A field whose name stands in front of it is never looked up. -/
theorem find?_eq_of_repeated (h : ∃ earlier ∈ before, earlier.name.text = field.name.text)
    (name : String) :
    (before ++ field :: after).find? (fun other => other.name.text = name) =
      (before ++ after).find? fun other => other.name.text = name := by
  rw [List.find?_append, List.find?_append, List.find?_cons]
  by_cases hname : field.name.text = name
  · obtain ⟨earlier, hmem, hearlier⟩ := h
    have hbefore : (before.find? fun other => other.name.text = name).isSome :=
      List.find?_isSome.mpr ⟨earlier, hmem, by simpa [hearlier] using hname⟩
    obtain ⟨found, hfound⟩ := Option.isSome_iff_exists.mp hbefore
    rw [hfound, Option.some_or, Option.some_or]
  · simp [hname]

end First

/-! ## Declared fields -/

section Declared

variable {registry : Registry} {source : Source} {given given' : List Literal.Field}
  {fields : List Field} {out : List (String × Json)}

/-- Of the fields of a literal only the first of each name matters. -/
theorem convertFields_of_find?_eq
    (h : ∀ name, given.find? (fun other => other.name.text = name) =
      given'.find? fun other => other.name.text = name) :
    convertFields registry source given fields = convertFields registry source given' fields := by
  induction fields with
  | nil => rw [convertFields_nil, convertFields_nil]
  | cons field rest ih =>
    have hhere : convertField registry source given field =
        convertField registry source given' field := by
      simp only [convertField, h]
    rw [convertFields_cons, convertFields_cons, hhere, ih]

/-- The value of a field that is given converts under the declared type, and is found under its
name. -/
theorem lookup_of_convertFields {name : String} {declared : Field} {found : Literal.Field}
    (h : convertFields registry source given fields = some out)
    (hdeclared : fields.find? (fun field => field.name = name) = some declared)
    (hfound : given.find? (fun other => other.name.text = name) = some found) :
    ∃ value, declared.type.convert registry source found.value = some value ∧
      out.lookup name = some value := by
  induction fields generalizing out with
  | nil => simp at hdeclared
  | cons field rest ih =>
    rw [convertFields_cons] at h
    obtain ⟨members, hfirst, h⟩ := Option.bind_eq_some_iff.mp h
    obtain ⟨others, hrest, rfl⟩ := Option.map_eq_some_iff.mp h
    obtain ⟨value?, hbecomes, rfl⟩ := convertField_eq_some hfirst
    by_cases hname : field.name = name
    · obtain rfl : field = declared := by simpa [hname] using hdeclared
      rw [← hname] at hfound ⊢
      simp only [FieldBecomes, hfound] at hbecomes
      obtain ⟨value, hvalue, rfl⟩ := hbecomes
      exact ⟨value, hvalue, by simp⟩
    · obtain ⟨value, hvalue, hlookup⟩ := ih hrest (by simpa [hname] using hdeclared)
      refine ⟨value, hvalue, ?_⟩
      have hne : (name == field.name) = false := beq_eq_false_iff_ne.mpr (Ne.symm hname)
      cases value? <;> simp [List.lookup_cons, hne, hlookup]

end Declared

/-! ## Object literals -/

section Objects

variable {registry : Registry} {source : Source} {object : ObjectType} {node : Literal.Node}
  {before after : List Literal.Field} {field : Literal.Field} {out : Json}

/-- **Every field of an accepted object literal counts.** Wherever a field stands in a literal that
converts under an object type, it is declared. If its name does not stand in front of it, then its
value converts under the declared type, and is found under that name in the result. If it does, the
field says nothing: without it the literal converts to the same. -/
theorem written_of_convert (hvalue : node.value = .object (before ++ field :: after))
    (h : (InputType.named (.object object)).convert registry source node = some out) :
    ∃ declared, object.field? field.name.text = some declared ∧
      ((∀ earlier ∈ before, earlier.name.text ≠ field.name.text) →
        ∃ value, declared.type.convert registry source field.value = some value ∧
          out.member? field.name.text = some value) ∧
      ((∃ earlier ∈ before, earlier.name.text = field.name.text) →
        (InputType.named (.object object)).convert registry source
          ⟨.object (before ++ after), node.span⟩ = some out) := by
  rw [convert_object hvalue] at h
  split at h
  · rename_i hall
    obtain ⟨members, hmembers, rfl⟩ := Option.map_eq_some_iff.mp h
    have hknown := List.all_eq_true.mp hall
    obtain ⟨declared, hdeclared⟩ := Option.isSome_iff_exists.mp (hknown field (by simp))
    refine ⟨declared, hdeclared, fun hfirst => ?_, fun hrepeated => ?_⟩
    · exact lookup_of_convertFields hmembers hdeclared (find?_eq_of_first hfirst)
    · have hrest : ((before ++ after).all fun field =>
          (object.field? field.name.text).isSome) = true := by
        refine List.all_eq_true.mpr fun other hmem => hknown other ?_
        rcases List.mem_append.mp hmem with hmem | hmem <;> simp [hmem]
      rw [convert_object rfl, if_pos hrest,
        ← convertFields_of_find?_eq (find?_eq_of_repeated hrepeated), hmembers]
      rfl
  · simp at h

end Objects

/-- An object type with one field. -/
def counted : ObjectType := ⟨"T", none, [⟨"n", .named (.builtin .int), none, none⟩]⟩

/-- Two fields of that name, `{n: 1, n: "x"}`. -/
def countedTwice : Literal.Node :=
  ⟨.object
    ([] ++ ⟨⟨"n", ⟨1, 2⟩⟩, ⟨.int "1", ⟨4, 5⟩⟩, ⟨1, 5⟩⟩ ::
      [⟨⟨"n", ⟨7, 8⟩⟩, ⟨.string "x", ⟨10, 13⟩⟩, ⟨7, 13⟩⟩]), ⟨0, 14⟩⟩

theorem convert_countedTwice :
    (InputType.named (.object counted)).convert ⟨[]⟩ ⟨"", ""⟩ countedTwice =
      some (.object [("n", .number (.integer 1))]) := by
  cbv

/-- The first of the two fields is the one that counts. -/
theorem written_of_convert_twice :
    ∃ declared, counted.field? "n" = some declared ∧
      ∃ value, declared.type.convert ⟨[]⟩ ⟨"", ""⟩ ⟨.int "1", ⟨4, 5⟩⟩ = some value ∧
        (Json.object [("n", .number (.integer 1))]).member? "n" = some value := by
  obtain ⟨declared, hdeclared, hfirst, -⟩ := written_of_convert rfl convert_countedTwice
  exact ⟨declared, hdeclared, hfirst nofun⟩

/-- A field that repeats a name need not convert. -/
theorem not_written_of_convert :
    ¬∀ (registry : Registry) (source : Source) (object : ObjectType) (node : Literal.Node)
      (given : List Literal.Field) (out : Json), node.value = .object given →
        (InputType.named (.object object)).convert registry source node = some out →
          ∀ field ∈ given, ∃ declared value, object.field? field.name.text = some declared ∧
            declared.type.convert registry source field.value = some value ∧
              out.member? field.name.text = some value := by
  intro h
  obtain ⟨declared, value, hdeclared, hvalue, -⟩ :=
    h ⟨[]⟩ ⟨"", ""⟩ counted countedTwice _ _ rfl convert_countedTwice _
      (List.mem_cons_of_mem _ List.mem_cons_self)
  have hint : counted.field? "n" = some ⟨"n", .named (.builtin .int), none, none⟩ := by cbv
  cases hint.symm.trans hdeclared
  have hrefused : (InputType.named (.builtin .int)).convert ⟨[]⟩ ⟨"", ""⟩
      ⟨.string "x", ⟨10, 13⟩⟩ = none := by
    cbv
  cases hrefused.symm.trans hvalue

end TaggedUnion
