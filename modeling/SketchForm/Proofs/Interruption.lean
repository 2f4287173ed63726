/-
This file says how far a drawing gets that cannot be compiled to its end.

A node stops a walk if a number of its own is too large: the coordinate of a point, if it
is a path, or an entry of its matrix, if it is a transform. The walk fails exactly at the
first such node that it reaches, in the order of positions. Up to there nothing is left
out, and of the node that stops it nothing is shown, not even the points before the bad
one. Since drawing follows the walk path by path, what is on a canvas after a failure is
what was on it before, and then the commands of just these paths.

The walk through the children of a node fails in one of them. The children before it are
those of a shorter node, so what is known about walks that do not fail holds of them.
-/
import SketchForm.Proofs.Appending

namespace SketchForm

variable {R : Type}

namespace Tree

/-! ### Nodes that are reached -/

/-- What takes part in a child takes part in the node, if the node lets through. -/
theorem LetsThrough.uses {tree child : Tree R} (letsThrough : tree.LetsThrough) {place : Nat}
    (late : 2 ≤ place) (isMember : tree.member? place = some child) {number : Quantity R}
    (below : child.Uses number) : tree.Uses number := by
  rcases letsThrough with style | ⟨transform, matrix, isMatrix, hasForm⟩
  · match tree, style with
    | .sequence .vector (head :: rest), tagged =>
      match place, late with
      | place + 2, _ =>
        have isItem : rest[place + 1]? = some child := isMember
        rw [← List.getElem?_tail] at isItem
        exact .inGroup tagged (List.mem_of_getElem? isItem) below
  · match tree, transform with
    | .sequence .vector (head :: first :: children), tagged =>
      match place, late with
      | place + 2, _ =>
        have isItem : children[place]? = some child := isMember
        cases isMatrix
        exact .inTransform tagged hasForm (List.mem_of_getElem? isItem) below
    | .sequence .vector [_], _ => cases isMatrix

/-- The numbers that take part in a node that is reached take part in the drawing. -/
theorem Reaches.uses {tree node : Tree R} {position : List Nat}
    (reaches : tree.Reaches position node) {number : Quantity R} (own : node.Uses number) :
    tree.Uses number := by
  induction position generalizing tree with
  | nil => exact reaches_nil.mp reaches ▸ own
  | cons place below inductionHypothesis =>
    obtain ⟨letsThrough, late, child, isMember, reaches⟩ := reaches_cons.mp reaches
    exact letsThrough.uses late isMember (inductionHypothesis reaches)

variable [Measure R]

/-! ### Nodes that stop a walk -/

/-- Whether a number of the node's own is too large. -/
inductive IsStuck : Tree R → Prop where
  | path {head token : Tree R} {rest : List (Tree R)} {number : Quantity R}
      (tagged : head.asTag? = some .path) (member : token ∈ head :: rest)
      (own : number ∈ token.coordinates) (large : ¬ number.Fits) :
      IsStuck (.sequence .vector (head :: rest))
  | transform {head matrix : Tree R} {children : List (Tree R)} {number : Quantity R}
      (tagged : head.asTag? = some .transform) (own : number ∈ matrix.entries)
      (large : ¬ number.Fits) : IsStuck (.sequence .vector (head :: matrix :: children))

theorem IsStuck.not_fits {node : Tree R} (stuck : node.IsStuck) : ¬ node.Fits := by
  cases stuck with
  | path tagged member own large => exact fun fits => large (fits _ (.coordinate tagged member own))
  | transform tagged own large => exact fun fits => large (fits _ (.entry tagged own))

/-- A drawing in which a stuck node is reached cannot be compiled. -/
theorem Reaches.not_fits {tree node : Tree R} {position : List Nat}
    (reaches : tree.Reaches position node) (stuck : node.IsStuck) : ¬ tree.Fits :=
  fun fits => stuck.not_fits fun number own => fits number (reaches.uses own)

theorem isStuck_path_iff {head : Tree R} {rest : List (Tree R)}
    (tagged : head.asTag? = some .path) :
    (sequence .vector (head :: rest)).IsStuck ↔
      ¬ ∀ token ∈ head :: rest, ∀ number ∈ token.coordinates, number.Fits := by
  constructor
  · intro stuck fits
    cases stuck with
    | path _ member own large => exact large (fits _ member _ own)
    | transform isTransform => cases tagged.symm.trans isTransform
  · intro large
    push Not at large
    obtain ⟨token, member, number, own, large⟩ := large
    exact .path tagged member own large

theorem isStuck_transform_iff {head matrix : Tree R} {children : List (Tree R)}
    (tagged : head.asTag? = some .transform) :
    (sequence .vector (head :: matrix :: children)).IsStuck ↔
      ¬ ∀ number ∈ matrix.entries, number.Fits := by
  constructor
  · intro stuck fits
    cases stuck with
    | path isPath => cases tagged.symm.trans isPath
    | transform _ own large => exact large (fits _ own)
  · intro large
    push Not at large
    obtain ⟨number, own, large⟩ := large
    exact .transform tagged own large

theorem not_isStuck_of_style {tree : Tree R} (style : tree.tag? = some .style) :
    ¬ tree.IsStuck := by
  intro stuck
  cases stuck with
  | path tagged => cases style.symm.trans tagged
  | transform tagged => cases style.symm.trans tagged

/-- The positions and paths that a walk comes upon before it is stopped: where the first node stands
that stops it, the positions of all paths before that one, in order and each once, and beside each
the path as it is shown there. -/
structure EnumeratesUntil (start : Transform R) (tree : Tree R) (stop : List Nat)
    (positions : List (List Nat)) (paths : List (Tree R)) : Prop where
  stuck : ∃ node, tree.Reaches stop node ∧ node.IsStuck
  first : ∀ position node, tree.Reaches position node → node.IsStuck → ¬ position < stop
  ordered : positions.Pairwise (· < ·)
  complete : ∀ position, position ∈ positions ↔ tree.IsPathPosition position ∧ position < stop
  shown : List.Forall₂ (tree.Shows start) positions paths

/-- A node that stops the walk itself shows nothing. -/
theorem enumeratesUntil_nil (start : Transform R) {tree : Tree R} (stuck : tree.IsStuck) :
    EnumeratesUntil start tree [] [] [] := by
  refine ⟨⟨tree, reaches_nil.mpr rfl, stuck⟩, fun position _ _ _ => List.not_lt_nil position,
    List.Pairwise.nil, fun position => ⟨nofun, ?_⟩, List.Forall₂.nil⟩
  exact fun ⟨_, before⟩ => absurd before (List.not_lt_nil position)

theorem getElem?_take_eq_some_iff {α : Type} {values : List α} {count place : Nat} {value : α} :
    (values.take count)[place]? = some value ↔ place < count ∧ values[place]? = some value := by
  rw [List.getElem?_take, Option.ite_none_right_eq_some]

section Children

variable {start : Transform R} {kind : SequenceKind} {items : List (Tree R)} {place : Nat}
variable {child : Tree R} {stop : List Nat}
variable (letsThrough : (sequence kind items).LetsThrough) (isItem : items[place]? = some child)

include letsThrough isItem

omit [Measure R] in
/-- The paths before a place below a child are those below earlier children and those before that
place below the child itself. -/
theorem isPathPosition_and_lt_iff (late : 2 ≤ place) {position : List Nat} :
    (sequence kind items).IsPathPosition position ∧ position < place :: stop ↔
      (∃ first below sibling, position = first :: below ∧ 2 ≤ first ∧
        (items.take place)[first]? = some sibling ∧ sibling.IsPathPosition below) ∨
      ∃ below, (child.IsPathPosition below ∧ below < stop) ∧ place :: below = position := by
  simp only [getElem?_take_eq_some_iff]
  constructor
  · rintro ⟨isPosition, earlier⟩
    cases position with
    | nil => exact absurd (isPathPosition_nil.mp isPosition) letsThrough.not_isPath
    | cons first below =>
      obtain ⟨_, lateFirst, sibling, isSibling, isPosition⟩ := isPathPosition_cons.mp isPosition
      rcases List.cons_lt_cons_iff.mp earlier with front | ⟨rfl, front⟩
      · exact Or.inl ⟨first, below, sibling, rfl, lateFirst, ⟨front, isSibling⟩, isPosition⟩
      · cases isItem.symm.trans isSibling
        exact Or.inr ⟨below, ⟨isPosition, front⟩, rfl⟩
  · rintro (⟨first, below, sibling, rfl, lateFirst, ⟨front, isSibling⟩, isPosition⟩ |
      ⟨below, ⟨isPosition, earlier⟩, rfl⟩)
    · exact ⟨isPathPosition_cons.mpr ⟨letsThrough, lateFirst, sibling, isSibling, isPosition⟩,
        List.cons_lt_cons_iff.mpr (Or.inl front)⟩
    · exact ⟨isPathPosition_cons.mpr ⟨letsThrough, late, child, isItem, isPosition⟩,
        List.cons_lt_cons_self.mpr earlier⟩

omit letsThrough in
/-- No node stops a walk before a place below a child, if neither the parent nor the earlier
children do, nor what comes before that place below the child. -/
theorem not_lt_of_isStuck (free : ¬ (sequence kind items).IsStuck)
    (fits : ∀ sibling ∈ (items.take place).drop 2, sibling.Fits)
    (first : ∀ position node, child.Reaches position node → node.IsStuck → ¬ position < stop)
    {position : List Nat} {node : Tree R} (reaches : (sequence kind items).Reaches position node)
    (stuck : node.IsStuck) : ¬ position < place :: stop := by
  intro earlier
  cases position with
  | nil => exact free (reaches_nil.mp reaches ▸ stuck)
  | cons other below =>
    obtain ⟨_, late, sibling, isSibling, reaches⟩ := reaches_cons.mp reaches
    rcases List.cons_lt_cons_iff.mp earlier with front | ⟨rfl, front⟩
    · have inside : ((items.take place).drop 2)[other - 2]? = some sibling := by
        rw [List.getElem?_drop, Nat.add_sub_cancel' late]
        exact getElem?_take_eq_some_iff.mpr ⟨front, isSibling⟩
      exact reaches.not_fits stuck (fits sibling (List.mem_of_getElem? inside))
    · cases isItem.symm.trans isSibling
      exact first below node reaches stuck front

/-- Where the walk is stopped below a child, the children before it are shown whole, and those after
it not at all. -/
theorem EnumeratesFrom.enumeratesUntil {here there : List (List Nat)} {paths others : List (Tree R)}
    (free : ¬ (sequence kind items).IsStuck) (late : 2 ≤ place)
    (fits : ∀ sibling ∈ (items.take place).drop 2, sibling.Fits)
    (before : EnumeratesFrom ((sequence kind items).ownMatrix?.elim start start.compose)
      (items.take place) 2 here paths)
    (last : EnumeratesUntil ((sequence kind items).ownMatrix?.elim start start.compose) child stop
      there others) :
    EnumeratesUntil start (.sequence kind items) (place :: stop)
      (here ++ there.map (place :: ·)) (paths ++ others) := by
  have isMember : (sequence kind items).member? place = some child := isItem
  refine ⟨?_, ?_, ?_, fun position => ?_, ?_⟩
  · obtain ⟨node, reaches, stuck⟩ := last.stuck
    exact ⟨node, reaches_cons.mpr ⟨letsThrough, late, child, isMember, reaches⟩, stuck⟩
  · exact fun _ _ reaches stuck => not_lt_of_isStuck isItem free fits last.first reaches stuck
  · refine List.pairwise_append.mpr ⟨before.ordered, ?_, ?_⟩
    · exact List.pairwise_map.mpr (last.ordered.imp fun earlier =>
        List.cons_lt_cons_self.mpr earlier)
    · intro position isHere other isThere
      obtain ⟨first, below, sibling, rfl, _, isSibling, _⟩ := (before.complete position).mp isHere
      obtain ⟨later, _, rfl⟩ := List.mem_map.mp isThere
      exact List.cons_lt_cons_iff.mpr (Or.inl (getElem?_take_eq_some_iff.mp isSibling).1)
  · rw [isPathPosition_and_lt_iff letsThrough isItem late, List.mem_append, List.mem_map,
      before.complete]
    simp only [last.complete]
  · refine List.rel_append (before.shown.imp ?_) (List.forall₂_map_left_iff.mpr (last.shown.imp ?_))
    · rintro position path ⟨first, below, sibling, rfl, isSibling, shown⟩
      have isItem : (sequence kind items).member? first = some sibling :=
        (getElem?_take_eq_some_iff.mp isSibling).2
      exact (shows_cons isItem).mpr shown
    · exact fun below path shown => (shows_cons isMember).mpr shown

end Children

/-! ### A walk that fails -/

/-- A walk through children that fails ends well through some of them and fails in the next. -/
theorem exists_of_walkEach_error {start : Transform R} {children : List (Tree R)}
    {failure : Failure} (fails : (walkEach start children).outcome = .error failure) :
    ∃ before child after, children = before ++ child :: after ∧
      (walkEach start before).outcome = .ok () ∧ (child.walk start).outcome = .error failure ∧
      (walkEach start children).events =
        (walkEach start before).events ++ (child.walk start).events := by
  induction children with
  | nil => cases fails
  | cons first rest inductionHypothesis =>
    rw [walkEach] at fails ⊢
    cases ends : (first.walk start).outcome with
    | error other =>
      rw [Trail.bind_of_error _ ends] at fails ⊢
      cases fails
      exact ⟨[], first, rest, rfl, rfl, ends, rfl⟩
    | ok _ =>
      rw [Trail.bind_of_ok _ ends] at fails ⊢
      obtain ⟨before, child, after, rfl, beforeEnds, childFails, events⟩ :=
        inductionHypothesis fails
      refine ⟨first :: before, child, after, rfl, ?_, childFails, ?_⟩
      · rw [walkEach, Trail.bind_of_ok _ ends]
        exact beforeEnds
      · rw [walkEach, Trail.bind_of_ok _ ends, events, List.append_assoc]

/-- A walk that fails below a node is stopped where it is stopped below one of the children. -/
theorem exists_enumeratesUntil_walkEach {start inner : Transform R} {kind : SequenceKind}
    {items : List (Tree R)} {failure : Failure} (letsThrough : (sequence kind items).LetsThrough)
    (map : (sequence kind items).ownMatrix?.elim start start.compose = inner)
    (free : ¬ (sequence kind items).IsStuck)
    (each : ∀ child ∈ items.drop 2, (child.walk inner).outcome = .error failure →
      ∃ stop positions, EnumeratesUntil inner child stop positions (child.paths inner))
    (fails : (walkEach inner (items.drop 2)).outcome = .error failure) :
    ∃ stop positions, EnumeratesUntil start (.sequence kind items) stop positions
      ((walkEach inner (items.drop 2)).events.filterMap Sighting.path?) := by
  obtain ⟨before, child, after, split, beforeEnds, childFails, events⟩ :=
    exists_of_walkEach_error fails
  have isItem : items[2 + before.length]? = some child := by
    rw [← List.getElem?_drop, split]
    simp
  have front : (items.take (2 + before.length)).drop 2 = before := by
    rw [List.drop_take, split, Nat.add_sub_cancel_left, List.take_left]
  have member : child ∈ items.drop 2 := by
    rw [split]
    exact List.mem_append_right _ List.mem_cons_self
  obtain ⟨stop, there, last⟩ := each child member childFails
  obtain ⟨here, found⟩ := exists_enumeratesFrom_walkEach inner _ before 2 front
    (fun sibling _ => sibling.exists_enumerates_of_walk inner) beforeEnds
  have fits : ∀ sibling ∈ before, sibling.Fits :=
    (endsIff_walkEach inner fun sibling _ => sibling.endsIff_walk inner).holds beforeEnds
  rw [events, List.filterMap_append]
  subst map
  rw [← front] at fits
  exact ⟨_, _, EnumeratesFrom.enumeratesUntil letsThrough isItem free (Nat.le_add_right _ _) fits
    found last⟩

/-- A walk that fails is stopped by the first node with a number of its own that is too large, and
it has come upon all paths before that node and upon nothing else. -/
theorem exists_enumeratesUntil_of_walk (tree : Tree R) :
    ∀ (start : Transform R) (failure : Failure), (tree.walk start).outcome = .error failure →
      ∃ stop positions, EnumeratesUntil start tree stop positions (tree.paths start) := by
  induction tree using Tree.inductNodes with
  | path head rest tagged =>
    intro start failure fails
    rw [walk_path start rest tagged] at fails
    cases placed : placeTokens start (head :: rest) with
    | ok tokens => rw [placed] at fails; cases fails
    | error other =>
      rw [paths, walk_path start rest tagged, placed]
      refine ⟨[], [], enumeratesUntil_nil start ?_⟩
      refine (isStuck_path_iff tagged).mpr fun fits => ?_
      obtain ⟨_, ends⟩ := (endsIff_placeTokens start (head :: rest)).ends fits
      cases placed.symm.trans ends
  | style head rest tagged each =>
    intro start failure fails
    have style : (sequence .vector (head :: rest)).tag? = some .style := tagged
    have children : (head :: rest).drop 2 = rest.tail := List.drop_one
    rw [walk_style start rest tagged, ← children] at fails
    rw [paths, walk_style start rest tagged, ← children]
    refine exists_enumeratesUntil_walkEach (Or.inl style) ?_ (not_isStuck_of_style style) ?_ fails
    · rw [ownMatrix?_of_style style]
      rfl
    · rw [children]
      exact fun child member => each child member start failure
  | transform head rest tagged each =>
    intro start failure fails
    cases rest with
    | nil => rw [walk_transform_nil start tagged] at fails; cases fails
    | cons matrix children =>
      rw [walk_transform start matrix children tagged] at fails
      rw [paths, walk_transform start matrix children tagged]
      cases read : matrix.matrix? with
      | error other =>
        refine ⟨[], [], enumeratesUntil_nil start ?_⟩
        refine (isStuck_transform_iff tagged).mpr fun fits => ?_
        obtain ⟨_, ends⟩ := matrix.endsIff_matrix?.ends fits
        cases read.symm.trans ends
      | ok own? =>
        rw [read] at fails
        cases own? with
        | none => cases fails
        | some own =>
          have letsThrough : (sequence .vector (head :: matrix :: children)).LetsThrough :=
            Or.inr ⟨tagged, matrix, rfl, hasMatrixForm_of_matrix? read⟩
          have free : ¬ (sequence .vector (head :: matrix :: children)).IsStuck := fun stuck =>
            (isStuck_transform_iff tagged).mp stuck (matrix.endsIff_matrix?.holds read)
          refine exists_enumeratesUntil_walkEach letsThrough ?_ free ?_ fails
          · rw [ownMatrix?_of_transform tagged read]
            rfl
          · exact fun child member => each child member (start.compose own) failure
  | passive tree notPath notStyle notTransform =>
    intro start failure fails
    rw [walk_passive start notPath notStyle notTransform] at fails
    cases fails

/-! ### Commands path by path -/

/-- The commands that drawing a placed path by itself leaves. -/
def pathCommands : Tree R → List (Command R)
  | .sequence _ tokens => (marks tokens).filterMap Mark.command?
  | _ => []

/-- A drawing with its tag is drawn path by path. -/
theorem commands_eq_flatMap {tree : Tree R} (tagged : tree.untagged? = none) :
    tree.commands = (tree.paths .identity).flatMap pathCommands := by
  rw [commands, draw_of_untagged? tagged, paths]
  show (((tree.walk .identity).events.flatMap Sighting.marks).filterMap Mark.command?) = _
  induction (tree.walk .identity).events with
  | nil => rfl
  | cons sighting rest inductionHypothesis =>
    rw [List.flatMap_cons, List.filterMap_append, inductionHypothesis]
    cases sighting with
    | path tokens => rfl
    | malformedMatrix found => rfl

end Tree

/-! ### In a session -/

namespace Session

section Drawings

variable {session : Session} {drawing : Ref} {tree : Tree Float}
variable (isTree : session.store.tree drawing = .ok tree)

include isTree

theorem outcome_drawingText : (drawingText drawing session).1 = tree.text.outcome := by
  have ends : (treeOf drawing session).1 = .ok tree := isTree
  have follows := follow_eq tree.text session
  rw [drawingText, Stateful.bind_of_ok _ ends]
  exact congrArg Prod.fst follows

/-- A canvas is kept before anything can fail, and what was drawn stays on it. -/
theorem canvas_drawOnNamed (name : String) :
    (drawOnNamed name drawing session).2.canvases.get? name =
        some ((session.canvases.get? name).getD [] ++ tree.commands) ∧
      (drawOnNamed name drawing session).1.map (fun _ => ()) = tree.draw.outcome := by
  rw [drawOnNamed_eq isTree]
  refine ⟨Directory.get?_insert_self _ _ _, ?_⟩
  cases tree.draw.outcome <;> rfl

/-- A value that is no path without its tag is written and drawn under the same condition. -/
theorem endsIff_drawing (tagged : tree.untagged? = none) (name : String) :
    EndsIff .numberTooLarge tree.Fits (drawingText drawing session).1 ∧
      EndsIff .numberTooLarge tree.Fits (drawOnNamed name drawing session).1 := by
  have drawn := tree.endsIff_draw
  have meant : tree.meant = tree := by rw [Tree.meant, tagged]
  rw [meant, ← (canvas_drawOnNamed isTree name).2] at drawn
  rw [outcome_drawingText isTree]
  exact ⟨tree.endsIff_text, EndsIff.of_map_eq (congrFun Except.map_id _).symm drawn⟩

/-- A value that is no path without its tag is written exactly if it is drawn, and where it is not,
both fail for a number that is too large. Then the canvas holds what it held before, and after that
the commands of the paths before the first node with such a number of its own: of all of these, and
of no others. -/
theorem drawing_interrupted (tagged : tree.untagged? = none) (name : String) :
    (∀ failure, (drawingText drawing session).1 = .error failure ↔
        (drawOnNamed name drawing session).1 = .error failure) ∧
      ∀ failure, (drawOnNamed name drawing session).1 = .error failure →
        failure = .numberTooLarge ∧
          ∃ stop positions,
            tree.EnumeratesUntil .identity stop positions (tree.paths .identity) ∧
              (drawOnNamed name drawing session).2.canvases.get? name =
                some ((session.canvases.get? name).getD [] ++
                  (tree.paths .identity).flatMap Tree.pathCommands) := by
  obtain ⟨written, drawn⟩ := endsIff_drawing isTree tagged name
  refine ⟨fun failure => written.eq_error_iff.trans drawn.eq_error_iff.symm, ?_⟩
  intro failure fails
  obtain ⟨large, same⟩ := drawn.eq_error_iff.mp fails
  obtain ⟨stop, positions, found⟩ := tree.exists_enumeratesUntil_of_walk .identity
    .numberTooLarge ((tree.endsIff_walk .identity).fails large)
  refine ⟨same, stop, positions, found, ?_⟩
  rw [(canvas_drawOnNamed isTree name).1, Tree.commands_eq_flatMap tagged]

end Drawings

/-- Two paths in a group, and between them one whose second point is too large, on a canvas with a
stroke on it. -/
def brokenGroup : Session where
  store := {
    objects := #[.sequence .plain [.scalar (.integer 1), .scalar (.integer 2)],
      .sequence .plain [.scalar (.integer (10 ^ 400)), .scalar (.integer 0)],
      .sequence .vector [.scalar (.keyword "path"), .scalar (.keyword "M"), .object 0],
      .sequence .vector [.scalar (.keyword "path"), .scalar (.keyword "M"), .object 0,
        .scalar (.keyword "L"), .object 1],
      .sequence .vector [.scalar (.keyword "style"), .scalar .nil, .object 2, .object 3,
        .object 2]] }
  canvases := ⟨[("canvas", [⟨.close, []⟩])]⟩

theorem drawing_interrupted_brokenGroup :
    ∃ tree, brokenGroup.store.tree (.object 4) = .ok tree ∧ tree.untagged? = none ∧
      (drawingText (.object 4) brokenGroup).1 = .error .numberTooLarge ∧
      (∃ stop positions,
        tree.EnumeratesUntil .identity stop positions (tree.paths .identity)) ∧
      ((drawOnNamed "canvas" (.object 4) brokenGroup).2.canvases.get? "canvas").map
        (List.map Command.stroke) = some [.close, .move] := by
  have isTree : brokenGroup.store.tree (.object 4) = .ok _ := rfl
  obtain ⟨alike, interrupted⟩ := drawing_interrupted isTree rfl "canvas"
  have fails : (drawOnNamed "canvas" (.object 4) brokenGroup).1 = .error .numberTooLarge := by
    decide +kernel
  obtain ⟨_, stop, positions, found, kept⟩ := interrupted _ fails
  refine ⟨_, isTree, rfl, (alike _).mpr fails, ⟨stop, positions, found⟩, ?_⟩
  rw [kept]
  decide +kernel

end Session

end SketchForm
