/-
This file draws in a session.

What a walk over a drawing passes over goes to the log, in order and up to a failure,
and what is drawn goes to a canvas in the same way. A canvas with a name keeps what is
drawn on it.
-/
import SketchForm.Session
import SketchForm.Path.Drawing
import SketchForm.Path.Text

namespace SketchForm

namespace Session

/-- The part of the library that logs for drawings. -/
def drawingSource : String := "glisp.path.compiler"

/-- A notice as it is logged. -/
def noticeRecord (notice : Notice Float) : Record := ⟨.debug, drawingSource, notice.message⟩

/-- Logs a notice. -/
def logNotice (notice : Notice Float) : Action Unit := log .debug drawingSource notice.message

/-- Follows a trail of notices. -/
def follow {α : Type} (trail : Trail (Notice Float) α) : Action α := do
  trail.events.forM logNotice
  settle trail.outcome

/-- Following a trail logs its notices and ends as the trail does, and changes nothing else. -/
theorem follow_eq {α : Type} (trail : Trail (Notice Float) α) (session : Session) :
    follow trail session = (trail.outcome, { session with
      journal := session.journal.logAll session.time (trail.events.map noticeRecord) }) := by
  rcases trail with ⟨notices, outcome⟩
  induction notices generalizing session with
  | nil => rfl
  | cons notice rest inductionHypothesis => exact inductionHypothesis (logNotice notice session).2

/-- What is on the canvas of a name. -/
def canvas (session : Session) (name : String) : Canvas Float :=
  (session.canvases.get? name).getD []

/-- The canvas of a name, empty if nothing was drawn on it. -/
def canvasNamed (name : String) : Action (Canvas Float) := do
  pure (((← get).canvases.get? name).getD [])

/-- Keeps a canvas under a name. -/
def keepCanvas (name : String) (canvas : Canvas Float) : Action Unit :=
  modify fun session => { session with canvases := session.canvases.insert name canvas }

/-- The text of a drawing. -/
def drawingText (drawing : Ref) : Action String := do
  follow (← treeOf drawing).text

/-- The paths of a drawing, placed under a map. -/
def paths (matrix : Transform Float) (drawing : Ref) : Action (List (Tree Float)) := do
  let tree ← treeOf drawing
  let trail := tree.walk matrix
  follow (trail.expand fun sighting => sighting.notice?.toList)
  pure (tree.paths matrix)

/-- Draws on a canvas. -/
def drawOn (canvas : Canvas Float) (drawing : Ref) : Action (Canvas Float) := do
  let trail := (← treeOf drawing).draw
  follow (trail.expand fun mark => mark.notice?.toList)
  pure (canvas ++ trail.events.filterMap Mark.command?)

/-- Draws on the canvas of a name. What is drawn before a failure stays. -/
def drawOnNamed (name : String) (drawing : Ref) : Action (Canvas Float) := do
  let tree ← treeOf drawing
  let canvas := (← canvasNamed name) ++ tree.commands
  keepCanvas name canvas
  follow (tree.draw.expand fun mark => mark.notice?.toList)
  pure canvas

end Session

end SketchForm
