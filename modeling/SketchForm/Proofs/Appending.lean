/-
This file proves that drawing adds to a canvas and takes nothing from it.

What a drawing draws does not depend on what is on the canvas, be it nothing at all, and
comes after it. So to draw several drawings one after another is to draw the group of
them: the walk through a group is the walks through its children, and both the commands
and a failure come at the same place. The one exception is a path without its tag, which
is drawn if it stands alone and passed by as a child of a group.
-/
import SketchForm.Proofs.Completion
import SketchForm.Proofs.Steps
import SketchForm.Session.Drawings

namespace SketchForm

/-! ### Drawing a group -/

namespace Tree

variable {R : Type} [Measure R]

/-- Draws one drawing after another, up to a failure. -/
def drawEach : List (Tree R) → Trail (Mark R) Unit
  | [] => pure ()
  | tree :: rest => do
    draw tree
    drawEach rest

theorem drawEach_eq_walkEach {trees : List (Tree R)}
    (tagged : ∀ tree ∈ trees, tree.untagged? = none) :
    drawEach trees = (walkEach .identity trees).expand Sighting.marks := by
  induction trees with
  | nil => rw [drawEach, walkEach, Trail.expand_pure]
  | cons tree rest inductionHypothesis =>
    rw [List.forall_mem_cons] at tagged
    rw [drawEach, walkEach, Trail.expand_bind, draw_of_untagged? tagged.1,
      inductionHypothesis tagged.2]

/-- Drawing a group is drawing its children one after another, if none of them is a path without its
tag. -/
theorem draw_styleNode (data : Tree R) {children : List (Tree R)}
    (tagged : ∀ child ∈ children, child.untagged? = none) :
    (styleNode data children).draw = drawEach children := by
  rw [draw_of_untagged? rfl, walk_styleNode, drawEach_eq_walkEach tagged]

end Tree

/-! ### Drawing in a session -/

namespace Session

/-- To follow a trail and make something of its result logs its notices and changes nothing else. -/
theorem follow_bind_pure {α β : Type} (trail : Trail (Notice Float) α) (view : α → β)
    (session : Session) :
    (follow trail >>= fun value => pure (view value)) session =
      (trail.outcome.map view, { session with
        journal := session.journal.logAll session.time (trail.events.map noticeRecord) }) := by
  have follows := follow_eq trail session
  cases outcome : trail.outcome with
  | error failure =>
    rw [Stateful.bind_of_error _ ((congrArg Prod.fst follows).trans outcome), follows]
    rfl
  | ok value =>
    rw [Stateful.bind_of_ok _ ((congrArg Prod.fst follows).trans outcome), follows]
    rfl

section Drawings

variable {session : Session} {drawing : Ref} {tree : Tree Float}
variable (isTree : session.store.tree drawing = .ok tree)

include isTree

/-- Drawing gives what is on the canvas and what is drawn, and logs what is passed over. -/
theorem drawOn_eq (canvas : Canvas Float) :
    drawOn canvas drawing session =
      (tree.draw.outcome.map fun _ => canvas ++ tree.commands,
        { session with
          journal := session.journal.logAll session.time
            ((tree.draw.events.filterMap Mark.notice?).map noticeRecord) }) := by
  have ends : (treeOf drawing session).1 = .ok tree := isTree
  let trail := tree.draw.expand fun mark => mark.notice?.toList
  rw [List.filterMap_eq_flatMap_toList, drawOn, Stateful.bind_of_ok _ ends]
  exact follow_bind_pure trail (fun _ => canvas ++ tree.commands) session

theorem outcome_drawOn (canvas : Canvas Float) :
    (drawOn canvas drawing session).1 = tree.draw.outcome.map fun _ => canvas ++ tree.commands :=
  congrArg Prod.fst (drawOn_eq isTree canvas)

/-- A canvas is kept before anything can fail, and what was drawn stays on it. -/
theorem drawOnNamed_eq (name : String) :
    drawOnNamed name drawing session =
      (tree.draw.outcome.map fun _ => session.canvas name ++ tree.commands,
        { session with
          canvases := session.canvases.insert name (session.canvas name ++ tree.commands)
          journal := session.journal.logAll session.time
            ((tree.draw.events.filterMap Mark.notice?).map noticeRecord) }) := by
  have ends : (treeOf drawing session).1 = .ok tree := isTree
  let canvas := session.canvas name ++ tree.commands
  let trail := tree.draw.expand fun mark => mark.notice?.toList
  rw [List.filterMap_eq_flatMap_toList, drawOnNamed, Stateful.bind_of_ok _ ends]
  exact follow_bind_pure trail (fun _ => canvas)
    { session with canvases := session.canvases.insert name canvas }

end Drawings

/-- Draws one drawing after another on the canvas of a name, up to a failure. -/
def drawEach (name : String) : List Ref → Action Unit
  | [] => pure ()
  | drawing :: rest => do
    let _ ← drawOnNamed name drawing
    drawEach name rest

theorem canvas_insert (session : Session) (name : String) (canvas : Canvas Float)
    (journal : Journal) :
    Session.canvas { session with canvases := session.canvases.insert name canvas, journal } name =
      canvas := by
  rw [Session.canvas, Directory.get?_insert_self]
  rfl

/-- What one drawing after another draws comes after what is on the canvas, up to a failure. -/
theorem drawEach_eq (name : String) {session : Session} {drawings : List Ref}
    {trees : List (Tree Float)}
    (each : List.Forall₂ (fun drawing tree => session.store.tree drawing = .ok tree) drawings
      trees) :
    (drawEach name drawings session).1 = (Tree.drawEach trees).outcome ∧
      (drawEach name drawings session).2.canvas name =
        session.canvas name ++ (Tree.drawEach trees).events.filterMap Mark.command? := by
  induction drawings generalizing session trees with
  | nil =>
    cases each
    exact ⟨rfl, (List.append_nil _).symm⟩
  | cons drawing rest inductionHypothesis =>
    obtain ⟨tree, others, isTree, areTrees, rfl⟩ := List.forall₂_cons_left_iff.mp each
    have drawn := drawOnNamed_eq isTree name
    rw [drawEach, Tree.drawEach]
    cases outcome : tree.draw.outcome with
    | error failure =>
      rw [outcome] at drawn
      rw [Stateful.bind_of_error _ (congrArg Prod.fst drawn), drawn, Trail.bind_of_error _ outcome]
      exact ⟨rfl, canvas_insert session name _ _⟩
    | ok _ =>
      rw [outcome] at drawn
      rw [Stateful.bind_of_ok _ (congrArg Prod.fst drawn), drawn, Trail.bind_of_ok _ outcome,
        List.filterMap_append, ← List.append_assoc]
      -- Drawing leaves the store as it is, so the other drawings are still what they were.
      obtain ⟨ends, kept⟩ := @inductionHypothesis { session with
        canvases := session.canvases.insert name (session.canvas name ++ tree.commands)
        journal := session.journal.logAll session.time
          ((tree.draw.events.filterMap Mark.notice?).map noticeRecord) } others areTrees
      rw [canvas_insert] at kept
      exact ⟨ends, kept⟩

/-- Drawing leaves what is on a canvas and adds to it what is drawn on an empty one, and other
canvases are as they were. And to draw one drawing after another, none of them a path without its
tag, comes to the same as drawing any group of them. -/
theorem drawing_appends (session : Session) (name : String) :
    (∀ drawing tree, session.store.tree drawing = .ok tree → tree.meant.Fits →
      ∃ drawn, (drawOn [] drawing session).1 = .ok drawn ∧
        (∀ canvas, (drawOn canvas drawing session).1 = .ok (canvas ++ drawn)) ∧
        (drawOnNamed name drawing session).1 = .ok (session.canvas name ++ drawn) ∧
        (drawOnNamed name drawing session).2.canvases.get? name =
          some (session.canvas name ++ drawn) ∧
        ∀ other, other ≠ name → (drawOnNamed name drawing session).2.canvases.get? other =
          session.canvases.get? other) ∧
      ∀ drawings trees data group,
        List.Forall₂ (fun drawing tree => session.store.tree drawing = .ok tree) drawings trees →
          (∀ tree ∈ trees, tree.untagged? = none) →
            session.store.tree group = .ok (.styleNode data trees) →
              (drawEach name drawings session).1 =
                  (drawOnNamed name group session).1.map (fun _ => ()) ∧
                (drawEach name drawings session).2.canvas name =
                  (drawOnNamed name group session).2.canvas name := by
  constructor
  · intro drawing tree isTree fits
    obtain ⟨_, ends⟩ := tree.endsIff_draw.ends fits
    have alone : ∀ canvas, (drawOn canvas drawing session).1 = .ok (canvas ++ tree.commands) := by
      intro canvas
      rw [outcome_drawOn isTree, ends]
      rfl
    rw [drawOnNamed_eq isTree, ends]
    exact ⟨tree.commands, alone [], alone, rfl, Directory.get?_insert_self _ _ _,
      fun other different => Directory.get?_insert_other _ _ different⟩
  · intro drawings trees data group each tagged isGroup
    have drawn := Tree.draw_styleNode data tagged
    obtain ⟨ends, kept⟩ := drawEach_eq name each
    rw [drawOnNamed_eq isGroup, canvas_insert, ends, kept, Tree.commands, drawn]
    refine ⟨?_, rfl⟩
    cases (Tree.drawEach trees).outcome <;> rfl

/-- A path with one line in it. -/
def lineTo (x : Int) : Tree Float :=
  .pathNode [.scalar (.keyword "L"), .sequence .plain [.scalar (.integer x), .scalar (.integer 0)]]

/-- Two paths, of which the second has a point too large to draw, and a group of the two, with a
stroke on a canvas. -/
def pairOfPaths : Session where
  store := {
    objects := #[.sequence .plain [.scalar (.integer 1), .scalar (.integer 0)],
      .sequence .plain [.scalar (.integer (10 ^ 400)), .scalar (.integer 0)],
      .sequence .vector [.scalar (.keyword "path"), .scalar (.keyword "L"), .object 0],
      .sequence .vector [.scalar (.keyword "path"), .scalar (.keyword "L"), .object 1],
      .sequence .vector [.scalar (.keyword "style"), .scalar .nil, .object 2, .object 3]] }
  canvases := ⟨[("canvas", [⟨.close, []⟩])]⟩

theorem drawing_appends_pairOfPaths :
    (∃ drawn, drawn.map Command.stroke = [.line] ∧
      (drawOnNamed "canvas" (.object 2) pairOfPaths).1 =
        .ok (pairOfPaths.canvas "canvas" ++ drawn)) ∧
      (drawEach "canvas" [.object 2, .object 3] pairOfPaths).1 = .error .numberTooLarge ∧
      ((drawEach "canvas" [.object 2, .object 3] pairOfPaths).2.canvas "canvas").map
        Command.stroke = [.close, .line] := by
  obtain ⟨alone, together⟩ := drawing_appends pairOfPaths "canvas"
  have isPath : pairOfPaths.store.tree (.object 2) = .ok (lineTo 1) := rfl
  have isLarge : pairOfPaths.store.tree (.object 3) = .ok (lineTo (10 ^ 400)) := rfl
  have ends : (lineTo 1).draw.outcome = .ok () := by decide +kernel
  have onEmpty : (drawOn [] (.object 2) pairOfPaths).1.map (List.map Command.stroke) =
      .ok [.line] := by decide +kernel
  obtain ⟨drawn, isDrawn, _, onCanvas, _⟩ :=
    alone (.object 2) _ isPath ((lineTo 1).endsIff_draw.holds ends)
  obtain ⟨fails, kept⟩ := together [.object 2, .object 3] [lineTo 1, lineTo (10 ^ 400)]
    (.scalar .nil) (.object 4) (.cons isPath (.cons isLarge .nil))
    (List.forall_mem_cons.mpr ⟨rfl, List.forall_mem_singleton.mpr rfl⟩) rfl
  rw [isDrawn] at onEmpty
  refine ⟨⟨drawn, Except.ok.inj onEmpty, onCanvas⟩, ?_, ?_⟩
  · rw [fails]
    decide +kernel
  · rw [kept]
    decide +kernel

end Session

end SketchForm
