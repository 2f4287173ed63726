/-
This file says what one step after another comes to, where steps change a state and can
fail.

Printing changes notes and an action changes a session, and both go on with the state
that the last step left, up to the first failure. What such a computation comes to is
known once it is known how its first step ends. That is independent of what the state is.
-/
import SketchForm.Failure

namespace SketchForm

namespace Stateful

variable {State α β : Type}

theorem bind_of_ok {action : ExceptT Failure (StateM State) α} {state : State} {value : α}
    (next : α → ExceptT Failure (StateM State) β) (ends : (action state).1 = .ok value) :
    (action >>= next) state = next value (action state).2 := by
  show (match action state with | (result, left) => ExceptT.bindCont next result left) = _
  rcases runs : action state with ⟨result, left⟩
  rw [runs] at ends
  cases ends
  rfl

theorem bind_of_error {action : ExceptT Failure (StateM State) α} {state : State}
    {failure : Failure} (next : α → ExceptT Failure (StateM State) β)
    (ends : (action state).1 = .error failure) :
    (action >>= next) state = (.error failure, (action state).2) := by
  show (match action state with | (result, left) => ExceptT.bindCont next result left) = _
  rcases runs : action state with ⟨result, left⟩
  rw [runs] at ends
  cases ends
  rfl

theorem exists_of_bind_ok {action : ExceptT Failure (StateM State) α}
    {next : α → ExceptT Failure (StateM State) β} {state : State} {result : β}
    (ends : ((action >>= next) state).1 = .ok result) :
    ∃ value, (action state).1 = .ok value ∧ (next value (action state).2).1 = .ok result ∧
      (action >>= next) state = next value (action state).2 := by
  cases first : (action state).1 with
  | error failure => rw [bind_of_error next first] at ends; cases ends
  | ok value =>
    have runs := bind_of_ok next first
    exact ⟨value, rfl, runs ▸ ends, runs⟩

theorem length_eq_of_mapM {action : α → ExceptT Failure (StateM State) β} {values : List α}
    {state : State} {results : List β} (ends : (values.mapM action state).1 = .ok results) :
    results.length = values.length := by
  induction values generalizing state results with
  | nil => rw [← Except.ok.inj ends]; rfl
  | cons value rest inductionHypothesis =>
    rw [List.mapM_cons] at ends
    obtain ⟨result, _, ends, _⟩ := exists_of_bind_ok ends
    obtain ⟨others, othersEnd, ends, _⟩ := exists_of_bind_ok ends
    rw [← Except.ok.inj ends, List.length_cons, List.length_cons, inductionHypothesis othersEnd]

/-- What is done with a result in the end leaves no trace in the state. -/
theorem state_bind_pure (action : ExceptT Failure (StateM State) α) (view : α → β)
    (state : State) :
    ((action >>= fun value => pure (view value)) state).2 = (action state).2 := by
  cases ends : (action state).1 with
  | error failure => rw [bind_of_error _ ends]
  | ok value => rw [bind_of_ok _ ends]; rfl

/-- Actions that only look at the state, one after another. -/
theorem mapM_of_looks {action : α → ExceptT Failure (StateM State) β}
    {look : α → Except Failure β} {state : State}
    (looks : ∀ value, action value state = (look value, state)) (values : List α) :
    values.mapM action state = (values.mapM look, state) := by
  induction values with
  | nil => rfl
  | cons value rest inductionHypothesis =>
    rw [List.mapM_cons, List.mapM_cons]
    cases first : look value with
    | error failure =>
      have fails : (action value state).1 = .error failure :=
        first ▸ congrArg Prod.fst (looks value)
      rw [bind_of_error _ fails, looks]
      rfl
    | ok result =>
      have ends : (action value state).1 = .ok result := first ▸ congrArg Prod.fst (looks value)
      rw [bind_of_ok _ ends, looks]
      cases others : rest.mapM look with
      | error failure =>
        rw [others] at inductionHypothesis
        rw [bind_of_error _ (congrArg Prod.fst inductionHypothesis), inductionHypothesis]
        rfl
      | ok results =>
        rw [others] at inductionHypothesis
        rw [bind_of_ok _ (congrArg Prod.fst inductionHypothesis), inductionHypothesis]
        rfl

end Stateful

end SketchForm
