/-
This file holds computations that leave a trail: what they did before they ended, in
order, beside how they ended.

A walk over a drawing finds paths and rejects what it cannot use, and it can fail in the
middle. What was found before the failure is not lost: a drawing shows it, and a log
lists it. So a trail records events even when there is no result, and running one
computation after another puts their trails one after another, up to the first failure.
-/
import SketchForm.Failure

namespace SketchForm

/-- What happened, in order, and the result or the cause of failure. -/
structure Trail (Event : Type) (α : Type) where
  events : List Event
  outcome : Except Failure α

namespace Trail

variable {Event Other α β : Type}

/-- Goes on with the result of a computation. -/
def andThen (trail : Trail Event α) (next : α → Trail Event β) : Trail Event β :=
  match trail.outcome with
  | .ok value => ⟨trail.events ++ (next value).events, (next value).outcome⟩
  | .error failure => ⟨trail.events, .error failure⟩

instance : Monad (Trail Event) where
  pure value := ⟨[], .ok value⟩
  bind := andThen

/-- One event. -/
def mark (event : Event) : Trail Event Unit := ⟨[event], .ok ()⟩

/-- A result that is known, or a failure, without any event. -/
def settle (outcome : Except Failure α) : Trail Event α := ⟨[], outcome⟩

/-- The same course with every event seen as any number of others. -/
def expand (view : Event → List Other) (trail : Trail Event α) : Trail Other α :=
  ⟨trail.events.flatMap view, trail.outcome⟩

/-! ### Laws -/

@[simp] theorem events_pure (value : α) : (pure value : Trail Event α).events = [] := rfl

@[simp] theorem outcome_pure (value : α) : (pure value : Trail Event α).outcome = .ok value := rfl

@[simp] theorem events_mark (event : Event) : (mark event).events = [event] := rfl

@[simp] theorem events_settle (outcome : Except Failure α) :
    (settle outcome : Trail Event α).events = [] := rfl

@[simp] theorem outcome_expand (view : Event → List Other) (trail : Trail Event α) :
    (trail.expand view).outcome = trail.outcome := rfl

theorem bind_of_ok {trail : Trail Event α} {value : α} (next : α → Trail Event β)
    (ends : trail.outcome = .ok value) :
    trail >>= next = ⟨trail.events ++ (next value).events, (next value).outcome⟩ := by
  show andThen trail next = _
  simp [andThen, ends]

theorem bind_of_error {trail : Trail Event α} {failure : Failure} (next : α → Trail Event β)
    (ends : trail.outcome = .error failure) :
    trail >>= next = ⟨trail.events, .error failure⟩ := by
  show andThen trail next = _
  simp [andThen, ends]

@[simp] theorem settle_ok_bind (value : α) (next : α → Trail Event β) :
    settle (.ok value) >>= next = next value := rfl

@[simp] theorem settle_error_bind (failure : Failure) (next : α → Trail Event β) :
    (settle (.error failure) : Trail Event α) >>= next = settle (.error failure) := rfl

theorem expand_pure (view : Event → List Other) (value : α) :
    (pure value : Trail Event α).expand view = pure value := rfl

theorem expand_bind (view : Event → List Other) (trail : Trail Event α)
    (next : α → Trail Event β) :
    (trail >>= next).expand view = trail.expand view >>= fun value => (next value).expand view := by
  rcases trail with ⟨events, outcome⟩
  cases outcome with
  | error failure => rfl
  | ok value =>
    rw [@bind_of_ok Event α β ⟨events, .ok value⟩ value next rfl,
      @bind_of_ok Other α β (expand view ⟨events, .ok value⟩) value _ rfl]
    exact congrArg (Trail.mk · _) List.flatMap_append

theorem outcome_bind (trail : Trail Event α) (next : α → Trail Event β) :
    (trail >>= next).outcome = trail.outcome >>= fun value => (next value).outcome := by
  cases ends : trail.outcome with
  | ok value => rw [bind_of_ok next ends]; rfl
  | error failure => rw [bind_of_error next ends]; rfl

/-- One computation after another ends well only if both do, and then all that happened is what
happened in each. -/
theorem exists_of_bind_ok {trail : Trail Event α} {next : α → Trail Event β} {result : β}
    (ends : (trail >>= next).outcome = .ok result) :
    ∃ value, trail.outcome = .ok value ∧ (next value).outcome = .ok result ∧
      (trail >>= next).events = trail.events ++ (next value).events := by
  cases first : trail.outcome with
  | error failure => rw [bind_of_error next first] at ends; cases ends
  | ok value =>
    rw [bind_of_ok next first] at ends ⊢
    exact ⟨value, rfl, ends, rfl⟩

theorem mem_events_bind {trail : Trail Event α} {next : α → Trail Event β} {event : Event} :
    event ∈ (trail >>= next).events ↔
      event ∈ trail.events ∨ ∃ value, trail.outcome = .ok value ∧ event ∈ (next value).events := by
  cases ends : trail.outcome with
  | ok value => simp [bind_of_ok next ends]
  | error failure => simp [bind_of_error next ends]

theorem bind_assoc (trail : Trail Event α) (next : α → Trail Event β) {γ : Type}
    (last : β → Trail Event γ) :
    trail >>= next >>= last = trail >>= fun value => next value >>= last := by
  rcases trail with ⟨events, outcome⟩
  cases outcome with
  | error failure => rfl
  | ok value =>
    rw [@bind_of_ok Event α β ⟨events, .ok value⟩ value next rfl,
      @bind_of_ok Event α γ ⟨events, .ok value⟩ value (fun value => next value >>= last) rfl]
    cases ends : (next value).outcome with
    | ok second => rw [bind_of_ok last ends, bind_of_ok last rfl, List.append_assoc]
    | error failure => rw [bind_of_error last ends, bind_of_error last rfl]

instance : LawfulMonad (Trail Event) :=
  LawfulMonad.mk' (Trail Event)
    (fun trail => by
      rcases trail with ⟨events, outcome⟩
      cases outcome with
      | ok value => exact congrArg (Trail.mk · _) (List.append_nil events)
      | error failure => rfl)
    (fun _ _ => rfl)
    (fun trail next last => bind_assoc trail next last)

end Trail

end SketchForm
