/-
This file draws paths.

Every segment of a path either becomes one stroke or is passed over with a notice: it
becomes a stroke if it begins with the keyword of a stroke and goes on with as many
points as that stroke asks for, whatever comes after them. A drawing is drawn path by
path, in the order in which a walk comes upon them, so if the walk fails, what it came
upon before is drawn.
-/
import SketchForm.Path.Canvas
import SketchForm.Path.Segment
import SketchForm.Path.Walk

namespace SketchForm

variable {R : Type}

/-- What drawing brings about. -/
inductive Mark (R : Type) where
  | drawn (command : Command R)
  | passedOver (notice : Notice R)

/-- The command drawn, if one was. -/
def Mark.command? : Mark R → Option (Command R)
  | .drawn command => some command
  | .passedOver _ => none

/-- The notice given, if one was. -/
def Mark.notice? : Mark R → Option (Notice R)
  | .drawn _ => none
  | .passedOver notice => some notice

/-- The stroke that a segment with this head draws. -/
def Tree.stroke? (head : Tree R) : Option Stroke := head.keyword?.bind Stroke.ofLetter?

/-- The points of a stroke: so many tokens at the front, if they are there and all are points. -/
def frontPoints? : Nat → List (Tree R) → Option (List (R × R))
  | 0, _ => some []
  | _ + 1, [] => none
  | count + 1, token :: rest => do
    let point ← token.realPoint?
    let points ← frontPoints? count rest
    pure (point :: points)

theorem isSome_frontPoints?_cons (count : Nat) (token : Tree R) (rest : List (Tree R)) :
    (frontPoints? (count + 1) (token :: rest)).isSome =
      (token.realPoint?.isSome && (frontPoints? count rest).isSome) := by
  rw [frontPoints?]
  cases token.realPoint? with
  | none => rfl
  | some point => cases frontPoints? count rest <;> rfl

/-- What drawing a segment brings about, its points having been placed. -/
def markOf (head : Tree R) (rest : List (Tree R)) : Mark R :=
  match head.stroke? with
  | none => .passedOver (.unsupportedCommand head)
  | some stroke =>
    match frontPoints? stroke.arity rest with
    | some points => .drawn ⟨stroke, points⟩
    | none => .passedOver (.incompleteSegment head rest)

/-- What drawing a path brings about, one mark for every segment. -/
def marks (tokens : List (Tree R)) : List (Mark R) :=
  (segments tokens).flatMap fun segment =>
    match segment with
    | [] => []
    | head :: rest => [markOf head rest]

/-- What drawing brings about on coming upon something. -/
def Sighting.marks : Sighting R → List (Mark R)
  | .path tokens => SketchForm.marks tokens
  | .malformedMatrix found => [.passedOver (.malformedMatrix found)]

namespace Tree

variable [Measure R]

/-- Draws a drawing, or a path whose tag was left out. -/
def draw (tree : Tree R) : Trail (Mark R) Unit :=
  match tree.untagged? with
  | some tokens => do
    let placed ← Trail.settle (placeTokens .identity tokens)
    ⟨marks placed, .ok ()⟩
  | none => (tree.walk .identity).expand Sighting.marks

/-- A path without its tag is placed as a whole and then drawn. -/
theorem draw_untagged {tree : Tree R} {tokens : List (Tree R)}
    (untagged : tree.untagged? = some tokens) :
    tree.draw = Trail.settle (placeTokens .identity tokens) >>= fun placed =>
      ⟨SketchForm.marks placed, .ok ()⟩ := by
  rw [draw, untagged]

/-- Everything else is drawn on a walk. -/
theorem draw_of_untagged? {tree : Tree R} (tagged : tree.untagged? = none) :
    tree.draw = (tree.walk .identity).expand Sighting.marks := by
  rw [draw, tagged]

/-- The commands that a drawing draws, up to a failure. -/
def commands (tree : Tree R) : Canvas R := tree.draw.events.filterMap Mark.command?

end Tree

end SketchForm
