import TaggedUnion.Coercion.Trail
import TaggedUnion.Outcome

/-!
# Checks along a trail

A check goes through the whole value with one path and one list of errors. A part of it adds to the
errors and leaves the path as it was, so what has been found before does not matter to the part, and
its outcome is the one that it has by itself.

* `Checked.under`, `Checked.both`: outcomes put together from those of parts.
* `Trail.add`: a trail with the errors of a part.
* `Trail.Yields`: a check that comes to the same outcome wherever it is made, and says so by nothing
  but the errors it adds.
* `Yields.both`, `Yields.part`: checks one after the other, and the check of a part.
* `Yields.outcome_eq`: what a check comes to at the root.
-/

namespace TaggedUnion

/-! ## Outcomes -/

namespace Checked

variable {α β γ : Type}

/-- Refuses for one cause. -/
def refuse (cause : CoercionCause) : Checked α := .error [.here cause]

/-- The outcome seen from the container of the value. -/
def under (segment : PathSegment) (outcome : Checked α) : Checked α :=
  outcome.mapError fun errors => errors.map (·.under segment)

/-- The errors of both outcomes in order, or both results put together. -/
def both (combine : α → β → γ) : Checked α → Checked β → Checked γ
  | .ok a, .ok b => .ok (combine a b)
  | .ok _, .error errors => .error errors
  | .error errors, .ok _ => .error errors
  | .error errors, .error more => .error (errors ++ more)

variable {combine : α → β → γ}

@[simp] theorem refuse_ne_ok {cause : CoercionCause} {a : α} : refuse cause ≠ .ok a := by
  simp [refuse]

@[simp] theorem under_eq_ok {segment : PathSegment} {outcome : Checked α} {a : α} :
    under segment outcome = .ok a ↔ outcome = .ok a :=
  mapError_eq_ok

@[simp] theorem both_eq_ok {first : Checked α} {second : Checked β} {c : γ} :
    both combine first second = .ok c ↔
      ∃ a b, first = .ok a ∧ second = .ok b ∧ combine a b = c := by
  cases first <;> cases second <;> simp [both]

theorem both_ok {first : Checked α} {b : β} :
    both combine first (.ok b) = first.map (combine · b) := by
  cases first <;> rfl

theorem under_map {segment : PathSegment} {f : α → β} {outcome : Checked α} :
    under segment (outcome.map f) = (under segment outcome).map f := by
  cases outcome <;> rfl

theorem both_map_left {δ : Type} {f : δ → α} {first : Checked δ} {second : Checked β} :
    both combine (first.map f) second = both (fun d b => combine (f d) b) first second := by
  cases first <;> cases second <;> rfl

end Checked

/-! ## Trails -/

/-- An error of a part, seen from the root to which the path leads back. -/
def CoercionError.below (path : Array PathSegment) (error : CoercionError) : CoercionError :=
  { error with path := path.toList ++ error.path }

namespace Trail

variable {α β γ : Type} {trail : Trail} {errors : List CoercionError}

/-- The trail after a part that has the given errors: they are added, with the path to the part in
front, and the path is the one from before. -/
def add (trail : Trail) (errors : List CoercionError) : Trail :=
  { trail with errors := trail.errors ++ (errors.map (·.below trail.path)).toArray }

theorem add_nil (trail : Trail) : trail.add [] = trail := by simp [add]

theorem add_add {more : List CoercionError} :
    (trail.add errors).add more = trail.add (errors ++ more) := by
  simp [add, Array.append_assoc]

theorem add_here {cause : CoercionCause} : trail.add [.here cause] =
    { trail with errors := trail.errors.push ⟨trail.path.toList, cause⟩ } := by
  simp [add, CoercionError.here, CoercionError.below]

theorem errors_add_empty : (({} : Trail).add errors).errors = errors.toArray := by
  have hbelow : errors.map (·.below #[]) = errors := by simp [CoercionError.below]
  simp [add, hbelow]

theorem run_enter {segment : PathSegment} : (enter segment).run trail =
    ((), { trail with path := trail.path.push segment }) := rfl

theorem run_leave : leave.run trail = ((), { trail with path := trail.path.pop }) := rfl

/-- Going to a part and back leaves its errors behind, with the step to the part in front. -/
theorem leave_add_enter {segment : PathSegment} :
    (leave.run (((enter segment).run trail).2.add errors)).2 =
      trail.add (errors.map (·.under segment)) := by
  have hbelow : ((·.below (trail.path.push segment)) : CoercionError → CoercionError) =
      (·.below trail.path) ∘ (·.under segment) := by
    funext error
    simp [CoercionError.below, CoercionError.under]
  simp only [run_enter, run_leave, add, Array.pop_push, List.map_map, hbelow]

/-- A check that comes to an outcome: a result if it adds no error, or else the errors that it adds.
What is on the trail before does not matter. -/
inductive Yields (check : StateM Trail α) : Checked α → Prop where
  | ok {a : α} (h : ∀ trail, check.run trail = (a, trail)) : Yields check (.ok a)
  | error {errors : List CoercionError} (hne : errors ≠ [])
    (h : ∀ trail, (check.run trail).2 = trail.add errors) : Yields check (.error errors)

section Steps

variable {check : StateM Trail α} {rest : StateM Trail β} {outcome : Checked α}
  {outcome' : Checked β}

theorem yields_pure (a : α) : Yields (pure a) (.ok a) := .ok fun _ => rfl

theorem yields_report (cause : CoercionCause) :
    Yields (report cause) (Checked.refuse cause) :=
  .error (List.cons_ne_nil _ _) fun _ => add_here.symm

/-- What comes after an error does not matter to the outcome. -/
theorem yields_refuse (cause : CoercionCause) : Yields (refuse cause) (Checked.refuse cause) :=
  .error (List.cons_ne_nil _ _) fun _ => add_here.symm

theorem Yields.map (f : α → β) (h : Yields check outcome) :
    Yields (check >>= fun a => pure (f a)) (outcome.map f) := by
  cases h with
  | ok h => exact .ok fun trail => by rw [StateT.run_bind, h]; rfl
  | error hne h => exact .error hne fun trail => h trail

/-- Two checks one after the other. -/
theorem Yields.both (combine : α → β → γ) (h : Yields check outcome) (h' : Yields rest outcome') :
    Yields (check >>= fun a => rest >>= fun b => pure (combine a b))
      (Checked.both combine outcome outcome') := by
  have hrun : ∀ trail, (check >>= fun a => rest >>= fun b => pure (combine a b)).run trail =
      (combine (check.run trail).1 (rest.run (check.run trail).2).1,
        (rest.run (check.run trail).2).2) := fun _ => rfl
  cases h with
  | ok h =>
    cases h' with
    | ok h' => exact .ok fun trail => by rw [hrun, h, h']
    | error hne h' => exact .error hne fun trail => by rw [hrun, h, h']
  | error hne h =>
    cases h' with
    | ok h' => exact .error hne fun trail => by rw [hrun, h', h]
    | error _ h' =>
      refine .error (List.append_ne_nil_of_left_ne_nil hne _) fun trail => ?_
      rw [hrun, h', h, add_add]

/-- The check of a part, to which the check goes and from which it comes back, and what comes
after. -/
theorem Yields.part (combine : α → β → γ) (segment : PathSegment) (h : Yields check outcome)
    (h' : Yields rest outcome') :
    Yields (do
        enter segment
        let a ← check
        leave
        let b ← rest
        return combine a b)
      (Checked.both combine (Checked.under segment outcome) outcome') := by
  have hunder : Yields (do
      enter segment
      let a ← check
      leave
      return a) (Checked.under segment outcome) := by
    cases h with
    | @ok a h =>
      refine .ok fun trail => ?_
      have hback : (leave.run ((enter segment).run trail).2).2 = trail := by
        rw [← add_nil ((enter segment).run trail).2, leave_add_enter, List.map_nil,
          add_nil]
      calc
        _ = ((check.run ((enter segment).run trail).2).1,
            (leave.run (check.run ((enter segment).run trail).2).2).2) := rfl
        _ = (a, trail) := by rw [h, hback]
    | error hne h =>
      refine .error (by simpa using hne) fun trail => ?_
      rw [← leave_add_enter, ← h]
      rfl
  exact hunder.both combine h'

/-- At the root, with no errors before, a check has the outcome that it comes to. -/
theorem Yields.outcome_eq (h : Yields check outcome) : Trail.outcome check = outcome := by
  have hrun : Trail.outcome check = if (check.run {}).2.errors.isEmpty then .ok (check.run {}).1
      else .error (check.run {}).2.errors.toList := rfl
  cases h with
  | ok h =>
    rw [hrun, h]
    rfl
  | error hne h =>
    rw [hrun, h, errors_add_empty, if_neg (by simpa using hne)]

end Steps

end Trail

end TaggedUnion
