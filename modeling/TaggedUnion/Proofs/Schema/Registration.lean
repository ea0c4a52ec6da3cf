import TaggedUnion.Proofs.Schema.Collect

/-!
# Runs of registrations

A registry is filled by calls, of which some are refused. Whatever the calls are, it stays in order.

* `Registry.after`, `Registry.run`: the registry after one call and after many.
* `register_eq_ok_iff`: the types that are registered, and where.
* `Registry.Lawful`: what holds of a registry at any time. `Lawful.after` is the step, `Lawful.run`
  the run.
* `prefix_run`: what has been registered stays in its place.
* `run_lawful`: all of this of a registry that starts with the built-in scalars.
-/

namespace TaggedUnion.Registry

variable {registry next : Registry} {type : InputType} {named : NamedType} {name : String}

/-- The registry after a call, accepted or refused. -/
def after (registry : Registry) (type : InputType) : Registry :=
  ((registerInPlace type).run.run registry).2

/-- The registry after calls, one after the other. -/
def run (registry : Registry) (calls : List InputType) : Registry := calls.foldl after registry

/-- What holds of a registry at any time. -/
structure Lawful (registry : Registry) : Prop where
  /-- The built-in scalars come first. -/
  builtins : builtins.types <+: registry.types
  valid : ∀ type ∈ registry.types, Text.isName type.name
  distinct : registry.names.Nodup

/-! ## One call -/

/-- What is registered is a named type with a name that obeys the rule and is new. It goes to the
end. -/
theorem register_eq_ok_iff : registry.register type = .ok next ↔
    ∃ named, type = .named named ∧ Text.isName named.name ∧ named.name ∉ registry.names ∧
      next = ⟨registry.types ++ [named]⟩ := by
  cases type with
  | named type =>
    have hadd : registry.register (.named type) = registry.add type := rfl
    simp [hadd, add_eq_ok_iff]
  | _ => exact iff_of_false nofun nofun

theorem after_of_ok (h : registry.register type = .ok next) : registry.after type = next := by
  obtain ⟨-, -, hnext⟩ := map_eq_ok.mp h
  exact hnext

/-- **A refused call.** It leaves the registry as it was. -/
theorem after_of_error {error : SchemaError} (h : registry.register type = .error error) :
    registry.after type = registry := by
  unfold register outcome at h
  rw [map_eq_error] at h
  unfold after
  cases type with
  | named type =>
    simp only [registerInPlace, run_addInPlace] at h ⊢
    by_cases hname : !Text.isName type.name
    · rw [if_pos hname]
    · rw [if_neg hname] at h ⊢
      by_cases hcontains : registry.contains type.name
      · rw [if_pos hcontains]
      · rw [if_neg hcontains] at h
        cases h
  | _ => rfl

/-- A call leaves a registry alone, or puts one type behind the others. -/
theorem after_cases (registry : Registry) (type : InputType) :
    registry.after type = registry ∨
      ∃ named, Text.isName named.name ∧ named.name ∉ registry.names ∧
        registry.after type = ⟨registry.types ++ [named]⟩ := by
  cases h : registry.register type with
  | error error => exact .inl (after_of_error h)
  | ok next =>
    obtain ⟨named, -, hname, hnew, rfl⟩ := register_eq_ok_iff.mp h
    exact .inr ⟨named, hname, hnew, after_of_ok h⟩

theorem prefix_after (registry : Registry) (type : InputType) :
    registry.types <+: (registry.after type).types := by
  rcases after_cases registry type with h | ⟨named, -, -, h⟩
  · exact h.symm ▸ List.prefix_rfl
  · rw [h]
    exact List.prefix_append _ _

theorem Lawful.after (h : registry.Lawful) (type : InputType) : (registry.after type).Lawful := by
  rcases after_cases registry type with hsame | ⟨named, hname, hnew, hadded⟩
  · rwa [hsame]
  · refine ⟨h.builtins.trans (prefix_after registry type), ?_, ?_⟩ <;> rw [hadded]
    · intro other hother
      rcases List.mem_append.mp hother with hold | hlast
      · exact h.valid other hold
      · rwa [List.mem_singleton.mp hlast]
    · rw [names, List.map_append]
      exact nodup_snoc.mpr ⟨h.distinct, hnew⟩

/-! ## Many calls -/

theorem run_append (registry : Registry) (calls more : List InputType) :
    registry.run (calls ++ more) = (registry.run calls).run more := List.foldl_append

theorem prefix_run (registry : Registry) (calls : List InputType) :
    registry.types <+: (registry.run calls).types := by
  induction calls generalizing registry with
  | nil => exact List.prefix_rfl
  | cons type rest ih => exact (prefix_after registry type).trans (ih (registry.after type))

theorem Lawful.run (h : registry.Lawful) (calls : List InputType) :
    (registry.run calls).Lawful := by
  induction calls generalizing registry with
  | nil => exact h
  | cons type rest ih => exact ih (h.after type)

theorem lawful_builtins : Registry.builtins.Lawful :=
  ⟨List.prefix_rfl, by decide, by decide⟩

/-- Each name is bound to the one type of that name. -/
theorem Lawful.get?_eq_some_iff (h : registry.Lawful) :
    registry.get? name = some named ↔ named ∈ registry.types ∧ named.name = name := by
  constructor
  · exact get?_some
  · rintro ⟨hmem, rfl⟩
    exact get?_name h.distinct hmem

/-- **Runs of registrations.** After any calls, accepted or refused, the registry is lawful. Each
name is bound to the type of that name, and a reference leads to a scalar, an object type or an enum
in one step. What has been registered keeps its place and its name whatever calls follow. A call is
accepted if its type is a named one with a new name that obeys the rule, and one that is refused
might as well not have been made. -/
theorem run_lawful (calls : List InputType) :
    (builtins.run calls).Lawful ∧
      (∀ name type, (builtins.run calls).get? name = some type ↔
        type ∈ (builtins.run calls).types ∧ type.name = name) ∧
      (∀ name type, (builtins.run calls).resolve (.reference name) = some type →
        type.kind = .scalar ∨ type.kind = .object ∨ type.kind = .enum) ∧
      (∀ more (index : Nat) type, (builtins.run calls).types[index]? = some type →
        (builtins.run (calls ++ more)).types[index]? = some type ∧
          (builtins.run (calls ++ more)).get? type.name = some type) ∧
      (∀ type next, (builtins.run calls).register type = .ok next ↔
        ∃ named, type = .named named ∧ Text.isName named.name ∧
          named.name ∉ (builtins.run calls).names ∧
          next = ⟨(builtins.run calls).types ++ [named]⟩) ∧
      ∀ type error more, (builtins.run calls).register type = .error error →
        builtins.run (calls ++ type :: more) = builtins.run (calls ++ more) := by
  have hlawful : ∀ calls, (builtins.run calls).Lawful := lawful_builtins.run
  refine ⟨hlawful calls, fun name type => (hlawful calls).get?_eq_some_iff, ?_, ?_,
    fun type next => register_eq_ok_iff, ?_⟩
  · intro name type hresolve
    obtain ⟨named, -, rfl⟩ := Option.map_eq_some_iff.mp hresolve
    cases named <;> simp [InputType.kind, NamedType.kind]
  · intro more index type htype
    have hstays : (builtins.run (calls ++ more)).types[index]? = some type := by
      obtain ⟨hindex, rfl⟩ := List.getElem?_eq_some_iff.mp htype
      rw [run_append]
      exact List.prefix_iff_getElem?.mp (prefix_run _ more) index hindex
    exact ⟨hstays, get?_name (hlawful _).distinct (List.mem_of_getElem? hstays)⟩
  · intro type error more hrefused
    rw [run_append, run_append]
    exact congrArg (run · more) (after_of_error hrefused)

/-- A list, an object type, another one of its name, and a reference to it. -/
def jediCalls : List InputType :=
  [.list (.reference "jedi"), .named (.object ⟨"jedi", none, []⟩),
    .named (.object ⟨"jedi", some "again", []⟩), .reference "jedi"]

/-- Of these calls only the second is accepted, and one more that is refused changes nothing. -/
theorem run_lawful_jedi :
    (builtins.run jediCalls).names = ["String", "Int", "Float", "Boolean", "ID", "jedi"] ∧
      (builtins.run jediCalls).Lawful ∧
      (builtins.run jediCalls).get? "jedi" = some (.object ⟨"jedi", none, []⟩) ∧
      builtins.run (jediCalls ++ .named (.builtin .int) :: [.reference "sith"]) =
        builtins.run (jediCalls ++ [.reference "sith"]) := by
  obtain ⟨hlawful, hget, -, -, -, hrefused⟩ := run_lawful jediCalls
  have hjedi : (builtins.run jediCalls).types[5]? = some (.object ⟨"jedi", none, []⟩) := by
    with_unfolding_all rfl
  have hint : (builtins.run jediCalls).register (.named (.builtin .int)) =
      .error (.duplicateType "Int") := by
    with_unfolding_all rfl
  exact ⟨by with_unfolding_all rfl, hlawful,
    (hget "jedi" _).mpr ⟨List.mem_of_getElem? hjedi, rfl⟩, hrefused _ _ _ hint⟩

end TaggedUnion.Registry
