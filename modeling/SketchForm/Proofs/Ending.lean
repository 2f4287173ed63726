/-
This file says when a computation that can fail comes to an end.

If it can fail in one way only, it has a result exactly under a condition on what it is
given, and where the condition does not hold the failure is the known one. What the steps
of a computation need can be put together to what the whole needs: one step after another
needs what both need, and going through a list what every member needs.

If it can fail in several ways, it ends at the first thing that stands in its way. What
stands in the way of one step after another is what stands in the way of the first and
then of the second, so these lists are put together in order, and nothing else is known
of a computation but the first member of its list.
-/
import SketchForm.Failure
import Mathlib.Tactic.ByContra

namespace SketchForm

variable {α β γ : Type}

/-- An outcome that is a result exactly under a condition, and otherwise is this failure. -/
structure EndsIff (failure : Failure) (condition : Prop) (outcome : Except Failure α) : Prop where
  ends : condition → ∃ value, outcome = .ok value
  fails : ¬ condition → outcome = .error failure

namespace EndsIff

variable {failure : Failure} {condition other : Prop} {outcome : Except Failure α}
variable {next : α → Except Failure β}

theorem holds (exactly : EndsIff failure condition outcome) {value : α}
    (result : outcome = .ok value) : condition := by
  by_contra not
  rw [exactly.fails not] at result
  cases result

theorem congr (exactly : EndsIff failure condition outcome) (same : condition ↔ other) :
    EndsIff failure other outcome :=
  ⟨fun holds => exactly.ends (same.mpr holds), fun not => exactly.fails fun holds =>
    not (same.mp holds)⟩

theorem ok (holds : condition) (value : α) : EndsIff failure condition (.ok value) :=
  ⟨fun _ => ⟨value, rfl⟩, fun not => absurd holds not⟩

/-- The failure comes where the condition does not hold, and is the known one. -/
theorem eq_error_iff (exactly : EndsIff failure condition outcome) {found : Failure} :
    outcome = .error found ↔ ¬ condition ∧ found = failure := by
  by_cases holds : condition
  · obtain ⟨_, ends⟩ := exactly.ends holds
    rw [ends]
    exact ⟨nofun, fun both => absurd holds both.1⟩
  · rw [exactly.fails holds]
    refine ⟨fun same => ⟨holds, (Except.error.inj same).symm⟩, ?_⟩
    rintro ⟨_, rfl⟩
    rfl

/-- One computation after another needs what both need. -/
theorem bind (first : EndsIff failure condition outcome)
    (second : ∀ value, outcome = .ok value → EndsIff failure other (next value)) :
    EndsIff failure (condition ∧ other) (outcome >>= next) := by
  by_cases holds : condition
  · obtain ⟨value, result⟩ := first.ends holds
    have rest := second value result
    rw [result]
    exact ⟨fun both => rest.ends both.2, fun not => rest.fails fun also => not ⟨holds, also⟩⟩
  · refine ⟨fun both => absurd both.1 holds, fun _ => ?_⟩
    rw [first.fails holds]
    rfl

/-- Outcomes that are alike in a view of their results end well under the same condition. -/
theorem of_map_eq {result : Except Failure β} {view : α → γ} {other : β → γ}
    (alike : outcome.map view = result.map other) (exactly : EndsIff failure condition result) :
    EndsIff failure condition outcome := by
  cases outcome with
  | ok value =>
    cases result with
    | ok _ => exact .ok (exactly.holds rfl) value
    | error _ => cases alike
  | error _ =>
    refine ⟨fun holds => ?_, fun not => ?_⟩
    · obtain ⟨_, rfl⟩ := exactly.ends holds
      cases alike
    · rw [exactly.fails not] at alike
      exact congrArg Except.error (Except.error.inj alike)

/-- What is made of a result has no part in whether there is one. -/
theorem map (exactly : EndsIff failure condition outcome) (view : α → β) :
    EndsIff failure condition (outcome.map view) := by
  have alike : (outcome.map view).map id = outcome.map view := by cases outcome <;> rfl
  exact of_map_eq alike exactly

/-- Going through a list needs what each step needs. -/
theorem mapM {needs : α → Prop} {step : α → Except Failure β} {values : List α}
    (each : ∀ value ∈ values, EndsIff failure (needs value) (step value)) :
    EndsIff failure (∀ value ∈ values, needs value) (values.mapM step) := by
  induction values with
  | nil => exact .ok nofun []
  | cons value rest inductionHypothesis =>
    rw [List.mapM_cons]
    have others := inductionHypothesis fun other member =>
      each other (List.mem_cons_of_mem _ member)
    have both := (each value List.mem_cons_self).bind fun result _ =>
      others.bind fun results _ => EndsIff.ok trivial (result :: results)
    exact both.congr (by rw [List.forall_mem_cons, and_true])

end EndsIff

/-! ### Several ways to fail -/

/-- An outcome that is a result if nothing stands in the way, and otherwise the first of the
failures that do. -/
inductive StopsAt : List Failure → Except Failure α → Prop
  | nowhere (value : α) : StopsAt [] (.ok value)
  | first (failure : Failure) (rest : List Failure) : StopsAt (failure :: rest) (.error failure)

namespace StopsAt

variable {obstacles others : List Failure} {outcome : Except Failure α}
variable {next : α → Except Failure β}

/-- One computation after another is stopped by what stops the first, and then by what stops the
second. -/
theorem bind (first : StopsAt obstacles outcome)
    (second : ∀ value, outcome = .ok value → StopsAt others (next value)) :
    StopsAt (obstacles ++ others) (outcome >>= next) := by
  cases first with
  | nowhere value => exact second value rfl
  | first failure rest => exact .first failure (rest ++ others)

theorem map (stops : StopsAt obstacles outcome) (view : α → β) :
    StopsAt obstacles (outcome.map view) := by
  cases stops with
  | nowhere value => exact .nowhere (view value)
  | first failure rest => exact .first failure rest

/-- Going through a list is stopped by what stops the steps, in their order. -/
theorem mapM {obstacles : α → List Failure} {step : α → Except Failure β} {values : List α}
    (each : ∀ value ∈ values, StopsAt (obstacles value) (step value)) :
    StopsAt (values.flatMap obstacles) (values.mapM step) := by
  induction values with
  | nil => exact .nowhere []
  | cons value rest inductionHypothesis =>
    rw [List.mapM_cons, List.flatMap_cons]
    have others := inductionHypothesis fun other member =>
      each other (List.mem_cons_of_mem _ member)
    exact (each value List.mem_cons_self).bind fun result _ => others.map (result :: ·)

end StopsAt

end SketchForm
