/-
This file says how the evaluation of a form can end.

An evaluator belongs to whoever uses the console, and it may fail in ways that nothing
here knows of. So how it ended is told apart only as far as the console treats it
differently: there is a value, or there was nothing to evaluate, or it failed with a
message for the user, or it failed in some other way, which is reported with its kind,
or it was stopped, which is not for the console to deal with.
-/

namespace SketchForm

/-- How an evaluation ended. -/
inductive Evaluation (α : Type) where
  | value (result : α)
  /-- There was nothing to evaluate. -/
  | blank
  /-- A failure with a message for the user. -/
  | failed (message : String)
  /-- A failure of another kind. -/
  | crashed (kind : String) (message? : Option String)
  /-- The evaluation was stopped. -/
  | stopped (kind : String)
  deriving Repr

end SketchForm
