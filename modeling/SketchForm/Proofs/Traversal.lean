/-
This file says what going through a list comes to when every step can fail.

Placing the tokens of a path, or following the references of an object, is one step for
every member of a list, and the whole succeeds exactly if all steps do, with their
results in order. Put as a relation between members and results, that can be taken
apart member by member.
-/
import Mathlib.Data.List.Forall2

namespace SketchForm

variable {α β : Type}

/-- Steps that agree on the members of a list may take each other's place. -/
theorem mapM_congr {m : Type → Type} [Monad m] [LawfulMonad m] {first second : α → m β}
    {values : List α} (same : ∀ value ∈ values, first value = second value) :
    values.mapM first = values.mapM second := by
  induction values with
  | nil => rfl
  | cons value rest inductionHypothesis =>
    rw [List.mapM_cons, List.mapM_cons, same value List.mem_cons_self,
      inductionHypothesis fun other member => same other (List.mem_cons_of_mem _ member)]

theorem mapM_eq_ok_iff {ε : Type} {step : α → Except ε β} {values : List α} {results : List β} :
    values.mapM step = .ok results ↔
      List.Forall₂ (fun value result => step value = .ok result) values results := by
  induction values generalizing results with
  | nil =>
    rw [List.mapM_nil, List.forall₂_nil_left_iff]
    exact ⟨fun same => (Except.ok.inj same).symm, fun empty => congrArg Except.ok empty.symm⟩
  | cons value rest inductionHypothesis =>
    rw [List.mapM_cons, List.forall₂_cons_left_iff]
    constructor
    · intro ends
      cases first : step value with
      | error failure => rw [first] at ends; cases ends
      | ok result =>
        cases others : rest.mapM step with
        | error failure => rw [first, others] at ends; cases ends
        | ok otherResults =>
          rw [first, others] at ends
          exact ⟨result, otherResults, rfl, inductionHypothesis.mp others,
            (Except.ok.inj ends).symm⟩
    · rintro ⟨result, otherResults, first, others, rfl⟩
      rw [first, inductionHypothesis.mpr others]
      rfl

theorem mapM_eq_some_iff {step : α → Option β} {values : List α} {results : List β} :
    values.mapM step = some results ↔
      List.Forall₂ (fun value result => step value = some result) values results := by
  induction values generalizing results with
  | nil =>
    rw [List.mapM_nil, List.forall₂_nil_left_iff]
    exact ⟨fun same => (Option.some.inj same).symm, fun empty => congrArg some empty.symm⟩
  | cons value rest inductionHypothesis =>
    rw [List.mapM_cons, List.forall₂_cons_left_iff]
    constructor
    · intro ends
      cases first : step value with
      | none => rw [first] at ends; cases ends
      | some result =>
        cases others : rest.mapM step with
        | none => rw [first, others] at ends; cases ends
        | some otherResults =>
          rw [first, others] at ends
          exact ⟨result, otherResults, rfl, inductionHypothesis.mp others,
            (Option.some.inj ends).symm⟩
    · rintro ⟨result, otherResults, first, others, rfl⟩
      rw [first, inductionHypothesis.mpr others]
      rfl

/-- Related partners can be found for all members of a list if one can be found for each. -/
theorem exists_forall₂_iff {related : α → β → Prop} {values : List α} :
    (∃ results, List.Forall₂ related values results) ↔
      ∀ value ∈ values, ∃ result, related value result := by
  induction values with
  | nil => exact ⟨fun _ => nofun, fun _ => ⟨[], List.Forall₂.nil⟩⟩
  | cons value rest inductionHypothesis =>
    rw [List.forall_mem_cons, ← inductionHypothesis]
    constructor
    · rintro ⟨results, each⟩
      obtain ⟨result, others, first, otherEach, _⟩ := List.forall₂_cons_left_iff.mp each
      exact ⟨⟨result, first⟩, others, otherEach⟩
    · rintro ⟨⟨result, first⟩, others, otherEach⟩
      exact ⟨result :: others, List.Forall₂.cons first otherEach⟩

/-- Whatever stands on the right of related lists has a partner on the left. -/
theorem exists_mem_of_forall₂ {related : α → β → Prop} {values : List α} {results : List β}
    (each : List.Forall₂ related values results) {result : β} (member : result ∈ results) :
    ∃ value ∈ values, related value result := by
  induction each with
  | nil => exact absurd member List.not_mem_nil
  | cons first others inductionHypothesis =>
    rcases List.mem_cons.mp member with rfl | inRest
    · exact ⟨_, List.mem_cons_self, first⟩
    · obtain ⟨value, among, holds⟩ := inductionHypothesis inRest
      exact ⟨value, List.mem_cons_of_mem _ among, holds⟩

/-- What is related to the same things is related to each other, if that holds one by one. -/
theorem forall₂_of_forall₂ {γ : Type} {first : α → β → Prop} {second : α → γ → Prop}
    {both : β → γ → Prop} (each : ∀ value result other, first value result → second value other →
      both result other) {values : List α} {results : List β} {others : List γ}
    (left : List.Forall₂ first values results) (right : List.Forall₂ second values others) :
    List.Forall₂ both results others := by
  induction left generalizing others with
  | nil =>
    cases right
    exact .nil
  | cons here _ inductionHypothesis =>
    cases right with
    | cons there rest => exact .cons (each _ _ _ here there) (inductionHypothesis rest)

/-- Another relation may take the place of one that holds of members and results, if it follows for
the members there are. -/
theorem forall₂_imp_of_mem {relation other : α → β → Prop} {values : List α} {results : List β}
    (wider : ∀ value ∈ values, ∀ result, relation value result → other value result)
    (each : List.Forall₂ relation values results) : List.Forall₂ other values results := by
  have both := (List.forall₂_and_left values results).mpr ⟨wider, each⟩
  exact both.imp fun value result pair => pair.1 result pair.2

end SketchForm
