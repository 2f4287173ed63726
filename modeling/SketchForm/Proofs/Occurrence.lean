/-
This file proves that a walk finds the paths of a drawing, all of them and each once.

Where a path stands in a drawing is told by a position: the places to go down by, from
the root on. A walk shows a path exactly if the way to it goes through groups and
through transforms with a proper matrix only, and never through a place before the
third, where tag, style data and matrix stand. The paths come in the order of their
positions, which is that of the text, and each is placed by the product of all matrices
on the way to it, the outermost on the left.

None of this mentions the walk. Positions are taken from the drawing as it is, so the
statement also says what a walk leaves out, and that nothing is shown twice.
-/
import Mathlib.Data.List.Forall2
import SketchForm.Path.Walk

namespace SketchForm

variable {R : Type}

namespace Tree

/-! ### Positions -/

/-- The member of a sequence at a place. -/
def member? : Tree R → Nat → Option (Tree R)
  | .sequence _ items, place => items[place]?
  | _, _ => none

/-- What stands at a position. -/
def at? : Tree R → List Nat → Option (Tree R)
  | tree, [] => some tree
  | tree, place :: below => (tree.member? place).bind fun child => child.at? below

/-- The nodes on the way to a position, from the root down and without the last. -/
def above : Tree R → List Nat → List (Tree R)
  | _, [] => []
  | tree, place :: below =>
    tree :: (tree.member? place).elim [] fun child => child.above below

/-- Whether a value has the form of a matrix, that of a sequence of six numerals. -/
def HasMatrixForm (tree : Tree R) : Prop :=
  ∃ numbers, tree.numerals? = some numbers ∧ numbers.length = 6

theorem hasMatrixForm_iff {tree : Tree R} :
    tree.HasMatrixForm ↔ ∃ a b c d tx ty, tree.numerals? = some [a, b, c, d, tx, ty] := by
  constructor
  · rintro ⟨numbers, row, six⟩
    match numbers, six with
    | [a, b, c, d, tx, ty], _ => exact ⟨a, b, c, d, tx, ty, row⟩
  · rintro ⟨a, b, c, d, tx, ty, row⟩
    exact ⟨_, row, rfl⟩

/-- Whether a node has children that belong to the drawing: a group has, and so has a transform
whose second member has the form of a matrix. -/
def LetsThrough (node : Tree R) : Prop :=
  node.tag? = some .style ∨
    node.tag? = some .transform ∧ ∃ matrix, node.member? 1 = some matrix ∧ matrix.HasMatrixForm

/-- Whether a node stands at a position, and the way there goes through groups and through
transforms with a proper matrix, and past tag, style data and matrices. -/
structure Reaches (tree : Tree R) (position : List Nat) (node : Tree R) : Prop where
  there : tree.at? position = some node
  through : ∀ other ∈ tree.above position, other.LetsThrough
  inside : ∀ place ∈ position, 2 ≤ place

theorem reaches_nil {tree node : Tree R} : tree.Reaches [] node ↔ tree = node :=
  ⟨fun reaches => Option.some.inj reaches.there, fun same => ⟨congrArg some same, nofun, nofun⟩⟩

/-- The way to a node below another goes through one of the children of that. -/
theorem reaches_cons {tree node : Tree R} {place : Nat} {below : List Nat} :
    tree.Reaches (place :: below) node ↔ tree.LetsThrough ∧ 2 ≤ place ∧
      ∃ child, tree.member? place = some child ∧ child.Reaches below node := by
  constructor
  · rintro ⟨there, through, inside⟩
    rw [at?] at there
    obtain ⟨child, isMember, there⟩ := Option.bind_eq_some_iff.mp there
    rw [above, isMember] at through
    refine ⟨through tree List.mem_cons_self, inside place List.mem_cons_self, child, isMember,
      there, ?_, ?_⟩
    · exact fun other member => through other (List.mem_cons_of_mem _ member)
    · exact fun place member => inside place (List.mem_cons_of_mem _ member)
  · rintro ⟨letsThrough, late, child, isMember, there, through, inside⟩
    refine ⟨?_, ?_, List.forall_mem_cons.mpr ⟨late, inside⟩⟩
    · rw [at?, isMember]
      exact there
    · rw [above, isMember]
      exact List.forall_mem_cons.mpr ⟨letsThrough, through⟩

/-- Whether the way to a position leads to a node of some kind. -/
def LeadsTo (target : Tree R → Prop) (tree : Tree R) (position : List Nat) : Prop :=
  ∃ node, tree.Reaches position node ∧ target node

theorem leadsTo_nil {target : Tree R → Prop} {tree : Tree R} :
    LeadsTo target tree [] ↔ target tree := by
  simp only [LeadsTo, reaches_nil, exists_eq_left']

theorem leadsTo_cons {target : Tree R → Prop} {tree : Tree R} {place : Nat} {below : List Nat} :
    LeadsTo target tree (place :: below) ↔ tree.LetsThrough ∧ 2 ≤ place ∧
      ∃ child, tree.member? place = some child ∧ LeadsTo target child below := by
  simp only [LeadsTo, reaches_cons]
  constructor
  · rintro ⟨node, ⟨letsThrough, late, child, isMember, reaches⟩, isTarget⟩
    exact ⟨letsThrough, late, child, isMember, node, reaches, isTarget⟩
  · rintro ⟨letsThrough, late, child, isMember, node, reaches, isTarget⟩
    exact ⟨node, ⟨letsThrough, late, child, isMember, reaches⟩, isTarget⟩

/-- Whether a path that belongs to the drawing stands at a position. -/
structure IsPathPosition (tree : Tree R) (position : List Nat) : Prop where
  isPath : ∃ node, tree.at? position = some node ∧ node.isPath
  through : ∀ node ∈ tree.above position, node.LetsThrough
  inside : ∀ place ∈ position, 2 ≤ place

/-- The positions of paths are those that lead to a node that is one. -/
theorem isPathPosition_eq :
    IsPathPosition (R := R) = LeadsTo fun node => node.isPath := by
  funext tree position
  refine propext ⟨?_, ?_⟩
  · rintro ⟨⟨node, there, isPath⟩, through, inside⟩
    exact ⟨node, ⟨there, through, inside⟩, isPath⟩
  · rintro ⟨node, ⟨there, through, inside⟩, isPath⟩
    exact ⟨⟨node, there, isPath⟩, through, inside⟩

theorem isPathPosition_nil {tree : Tree R} : tree.IsPathPosition [] ↔ tree.isPath := by
  rw [isPathPosition_eq]
  exact leadsTo_nil

theorem isPathPosition_cons {tree : Tree R} {place : Nat} {below : List Nat} :
    tree.IsPathPosition (place :: below) ↔ tree.LetsThrough ∧ 2 ≤ place ∧
      ∃ child, tree.member? place = some child ∧ child.IsPathPosition below := by
  simp only [isPathPosition_eq]
  exact leadsTo_cons

theorem LetsThrough.tag? {node : Tree R} (letsThrough : node.LetsThrough) :
    node.tag? = some .style ∨ node.tag? = some .transform := letsThrough.imp_right And.left

theorem LetsThrough.not_isPath {node : Tree R} (letsThrough : node.LetsThrough) :
    ¬ node.isPath := by
  intro isPath
  have tagged := beq_iff_eq.mp isPath
  rcases letsThrough.tag? with style | transform
  · rw [tagged] at style
    cases style
  · rw [tagged] at transform
    cases transform

/-! ### Positions in order -/

/-- Whether these are all positions at which something holds, in order and each once. -/
structure Locates (holds : List Nat → Prop) (positions : List (List Nat)) : Prop where
  ordered : positions.Pairwise (· < ·)
  complete : ∀ position, position ∈ positions ↔ holds position

/-- Whether a position goes down to one of these members, from a place on, and on to where something
holds of that member. -/
def BelowFrom (holds : Tree R → List Nat → Prop) (items : List (Tree R)) (first : Nat)
    (position : List Nat) : Prop :=
  ∃ place below child, position = place :: below ∧ first ≤ place ∧ items[place]? = some child ∧
    holds child below

namespace Locates

theorem nil {holds : List Nat → Prop} (never : ∀ position, ¬ holds position) : Locates holds [] :=
  ⟨List.Pairwise.nil, fun position => ⟨nofun, fun isThere => absurd isThere (never position)⟩⟩

section Below

variable {holds : Tree R → List Nat → Prop} {items : List (Tree R)} {first : Nat}

theorem below_nil (ended : items.drop first = []) : Locates (BelowFrom holds items first) [] := by
  refine nil ?_
  rintro position ⟨place, below, child, rfl, late, isMember, _⟩
  have short := List.drop_eq_nil_iff.mp ended
  rw [List.getElem?_eq_none (Nat.le_trans short late)] at isMember
  cases isMember

/-- The positions below a child come before all positions below later ones. -/
theorem below_cons {child : Tree R} {here there : List (List Nat)}
    (isMember : items[first]? = some child) (head : Locates (holds child) here)
    (tail : Locates (BelowFrom holds items (first + 1)) there) :
    Locates (BelowFrom holds items first) (here.map (first :: ·) ++ there) := by
  refine ⟨List.pairwise_append.mpr ⟨?_, tail.ordered, ?_⟩, fun position => ?_⟩
  · refine List.pairwise_map.mpr (head.ordered.imp fun before => ?_)
    exact List.cons_lt_cons_self.mpr before
  · intro position isHere other isThere
    obtain ⟨below, _, rfl⟩ := List.mem_map.mp isHere
    obtain ⟨place, later, _, rfl, late, _⟩ := (tail.complete other).mp isThere
    exact List.cons_lt_cons_iff.mpr (Or.inl late)
  · rw [List.mem_append, List.mem_map, tail.complete]
    constructor
    · rintro (⟨below, isHere, rfl⟩ | ⟨place, below, other, same, late, rest⟩)
      · exact ⟨first, below, child, rfl, Nat.le_refl _, isMember, (head.complete below).mp isHere⟩
      · exact ⟨place, below, other, same, Nat.le_of_succ_le late, rest⟩
    · rintro ⟨place, below, other, rfl, late, isOther, isPosition⟩
      rcases Nat.eq_or_lt_of_le late with rfl | later
      · rw [isMember] at isOther
        rw [← Option.some.inj isOther] at isPosition
        exact Or.inl ⟨below, (head.complete below).mpr isPosition, rfl⟩
      · exact Or.inr ⟨place, below, other, rfl, later, isOther, isPosition⟩

end Below

variable {target : Tree R → Prop} {tree : Tree R}

/-- Below a node that lets through and is itself no target, positions go on through its children. -/
theorem of_below {kind : SequenceKind} {items : List (Tree R)} {positions : List (List Nat)}
    (letsThrough : (sequence kind items).LetsThrough) (other : ¬ target (.sequence kind items))
    (found : Locates (BelowFrom (LeadsTo target) items 2) positions) :
    Locates (LeadsTo target (.sequence kind items)) positions := by
  refine ⟨found.ordered, fun position => ?_⟩
  rw [found.complete]
  cases position with
  | nil =>
    refine ⟨?_, fun here => absurd (leadsTo_nil.mp here) other⟩
    rintro ⟨_, _, _, empty, _⟩
    cases empty
  | cons place below =>
    rw [leadsTo_cons]
    constructor
    · rintro ⟨_, _, child, same, late, isMember, isPosition⟩
      obtain ⟨rfl, rfl⟩ := List.cons.inj same
      exact ⟨letsThrough, late, child, isMember, isPosition⟩
    · rintro ⟨_, late, child, isMember, isPosition⟩
      exact ⟨place, below, child, rfl, late, isMember, isPosition⟩

/-- Nothing is reached in a drawing that is no target and lets nothing through. -/
theorem of_closed (closed : ¬ tree.LetsThrough) (other : ¬ target tree) :
    Locates (LeadsTo target tree) [] := by
  refine nil fun position isPosition => ?_
  cases position with
  | nil => exact other (leadsTo_nil.mp isPosition)
  | cons place below => exact closed (leadsTo_cons.mp isPosition).1

/-- A target that lets nothing through has itself for its only position. -/
theorem of_target (closed : ¬ tree.LetsThrough) (isTarget : target tree) :
    Locates (LeadsTo target tree) [[]] := by
  refine ⟨List.pairwise_singleton _ _, fun position => ?_⟩
  rw [List.mem_singleton]
  cases position with
  | nil => exact ⟨fun _ => leadsTo_nil.mpr isTarget, fun _ => rfl⟩
  | cons place below =>
    exact ⟨nofun, fun isPosition => absurd (leadsTo_cons.mp isPosition).1 closed⟩

end Locates

/-- Whether something is what a member of these shows where a position goes on below it. -/
def ShowsBelow {Found : Type} (shows : Tree R → List Nat → Found → Prop) (items : List (Tree R))
    (position : List Nat) (found : Found) : Prop :=
  ∃ place below child, position = place :: below ∧ items[place]? = some child ∧
    shows child below found

variable [Measure R]

/-- Walking through the children of a node finds what is below it, if walking through each child
finds what is in that. The induction is on the children that are left, which are those from a place
on. -/
theorem exists_locates_walkEach {Found : Type} {holds : Tree R → List Nat → Prop}
    {shows : Tree R → List Nat → Found → Prop} {view : Sighting R → Option Found}
    (start : Transform R) (items children : List (Tree R)) (first : Nat)
    (left : items.drop first = children)
    (each : ∀ child ∈ children, (child.walk start).outcome = .ok () →
      ∃ positions, Locates (holds child) positions ∧
        List.Forall₂ (shows child) positions ((child.walk start).events.filterMap view))
    (fits : (walkEach start children).outcome = .ok ()) :
    ∃ positions, Locates (BelowFrom holds items first) positions ∧
      List.Forall₂ (ShowsBelow shows items) positions
        ((walkEach start children).events.filterMap view) := by
  induction children generalizing first with
  | nil =>
    rw [walkEach]
    exact ⟨[], Locates.below_nil left, List.Forall₂.nil⟩
  | cons child rest inductionHypothesis =>
    have isMember : items[first]? = some child := by
      rw [← List.head?_drop, left, List.head?_cons]
    have leftOver : items.drop (first + 1) = rest := by
      rw [← List.tail_drop, left, List.tail_cons]
    rw [walkEach] at fits ⊢
    obtain ⟨_, childFits, restFits, events⟩ := Trail.exists_of_bind_ok fits
    obtain ⟨here, head, headShown⟩ := each child List.mem_cons_self childFits
    obtain ⟨there, tail, tailShown⟩ := inductionHypothesis (first + 1) leftOver
      (fun other member => each other (List.mem_cons_of_mem _ member)) restFits
    rw [events, List.filterMap_append]
    refine ⟨_, Locates.below_cons isMember head tail, ?_⟩
    refine List.rel_append (List.forall₂_map_left_iff.mpr (headShown.imp ?_)) tailShown
    exact fun below found shown => ⟨first, below, child, rfl, isMember, shown⟩

/-- The matrix of a transform. -/
def ownMatrix? (node : Tree R) : Option (Transform R) :=
  if node.tag? = some .transform then
    (node.member? 1).bind fun matrix => matrix.matrix?.toOption.join
  else none

/-- The matrices of the transforms on the way to a position, from the root down. -/
def matricesAbove (tree : Tree R) (position : List Nat) : List (Transform R) :=
  (tree.above position).filterMap ownMatrix?

theorem ownMatrix?_of_style {tree : Tree R} (style : tree.tag? = some .style) :
    tree.ownMatrix? = none := by
  rw [ownMatrix?, style]
  rfl

theorem ownMatrix?_of_transform {head matrix : Tree R} {children : List (Tree R)}
    {own : Transform R} (tagged : head.asTag? = some .transform)
    (read : matrix.matrix? = .ok (some own)) :
    (sequence .vector (head :: matrix :: children)).ownMatrix? = some own := by
  have transform : (sequence .vector (head :: matrix :: children)).tag? = some .transform := tagged
  rw [ownMatrix?, transform, if_pos rfl]
  show matrix.matrix?.toOption.join = some own
  rw [read]
  rfl

theorem bind_ne_ok {ε α β : Type} {first : Except ε α} {next : α → Except ε β} {result : β}
    (never : ∀ value, next value ≠ .ok result) : first >>= next ≠ .ok result := by
  cases first with
  | error failure => exact nofun
  | ok value => exact never value

/-- Reading a matrix passes over just what does not have the form of one. -/
theorem matrix?_eq_ok_none_iff {tree : Tree R} :
    tree.matrix? = .ok none ↔ ¬ tree.HasMatrixForm := by
  constructor
  · intro passedOver hasForm
    obtain ⟨a, b, c, d, tx, ty, row⟩ := hasMatrixForm_iff.mp hasForm
    rw [matrix?, row] at passedOver
    refine absurd passedOver ?_
    exact bind_ne_ok fun _ => bind_ne_ok fun _ => bind_ne_ok fun _ => bind_ne_ok fun _ =>
      bind_ne_ok fun _ => bind_ne_ok fun _ => nofun
  · intro otherForm
    rw [matrix?]
    split
    · exact absurd ⟨_, ‹_›, rfl⟩ otherForm
    · rfl

theorem hasMatrixForm_of_matrix? {tree : Tree R} {matrix : Transform R}
    (read : tree.matrix? = .ok (some matrix)) : tree.HasMatrixForm := by
  by_contra otherForm
  rw [matrix?_eq_ok_none_iff.mpr otherForm] at read
  cases read

/-- A path as it is shown: the node at a position, placed by the product of the map to start with
and all matrices on the way. -/
def Shows (start : Transform R) (tree : Tree R) (position : List Nat) (path : Tree R) : Prop :=
  ∃ node, tree.at? position = some node ∧
    node.placed ((tree.matricesAbove position).foldl Transform.compose start) = .ok path

theorem shows_cons {start : Transform R} {tree child : Tree R} {place : Nat} {below : List Nat}
    {path : Tree R} (isMember : tree.member? place = some child) :
    tree.Shows start (place :: below) path ↔
      child.Shows (tree.ownMatrix?.elim start start.compose) below path := by
  have down : (tree.matricesAbove (place :: below)).foldl Transform.compose start =
      (child.matricesAbove below).foldl Transform.compose
        (tree.ownMatrix?.elim start start.compose) := by
    rw [matricesAbove, above, isMember]
    cases own : tree.ownMatrix? with
    | none => rw [List.filterMap_cons_none own]; rfl
    | some matrix => rw [List.filterMap_cons_some own]; rfl
  rw [Shows, Shows, down, at?, isMember]
  rfl

/-! ### A walk and the positions of its paths -/

/-- Positions and paths that belong together: the positions of all paths of a drawing, in order
and each once, and beside each the path as it is shown there. -/
structure Enumerates (start : Transform R) (tree : Tree R) (positions : List (List Nat))
    (paths : List (Tree R)) : Prop where
  ordered : positions.Pairwise (· < ·)
  complete : ∀ position, position ∈ positions ↔ tree.IsPathPosition position
  shown : List.Forall₂ (tree.Shows start) positions paths

/-- The same for what is below a node with these members, from a place on. -/
structure EnumeratesFrom (start : Transform R) (items : List (Tree R)) (first : Nat)
    (positions : List (List Nat)) (paths : List (Tree R)) : Prop where
  ordered : positions.Pairwise (· < ·)
  complete : ∀ position, position ∈ positions ↔ ∃ place below child, position = place :: below ∧
    first ≤ place ∧ items[place]? = some child ∧ child.IsPathPosition below
  shown : List.Forall₂ (fun position path => ∃ place below child, position = place :: below ∧
    items[place]? = some child ∧ child.Shows start below path) positions paths

/-- Below a node that lets through, positions go on through its children. -/
theorem EnumeratesFrom.enumerates {start : Transform R} {kind : SequenceKind}
    {items : List (Tree R)} {positions : List (List Nat)} {paths : List (Tree R)}
    (letsThrough : (sequence kind items).LetsThrough)
    (found : EnumeratesFrom ((sequence kind items).ownMatrix?.elim start start.compose) items 2
      positions paths) :
    Enumerates start (.sequence kind items) positions paths := by
  obtain ⟨ordered, complete, shown⟩ := found
  rw [isPathPosition_eq] at complete
  have below : Locates (BelowFrom (LeadsTo fun node => node.isPath) items 2) positions :=
    ⟨ordered, complete⟩
  have located := below.of_below letsThrough letsThrough.not_isPath
  rw [← isPathPosition_eq] at located
  refine ⟨located.ordered, located.complete, shown.imp ?_⟩
  rintro position path ⟨place, below, child, rfl, isItem, shown⟩
  have isMember : (sequence kind items).member? place = some child := isItem
  exact (shows_cons isMember).mpr shown

/-- A drawing that is no path and lets nothing through has no positions. -/
theorem enumerates_nil (start : Transform R) {tree : Tree R} (notPath : ¬ tree.isPath)
    (closed : ¬ tree.LetsThrough) : Enumerates start tree [] [] := by
  have located : Locates (LeadsTo (fun node => node.isPath) tree) [] :=
    Locates.of_closed closed notPath
  rw [← isPathPosition_eq] at located
  exact ⟨located.ordered, located.complete, List.Forall₂.nil⟩

/-- A path has itself for its only position. -/
theorem enumerates_path {start : Transform R} {tree path : Tree R} (isPath : tree.isPath)
    (placed : tree.placed start = .ok path) : Enumerates start tree [[]] [path] := by
  have closed : ¬ tree.LetsThrough := fun letsThrough => letsThrough.not_isPath isPath
  have located : Locates (LeadsTo (fun node => node.isPath) tree) [[]] :=
    Locates.of_target closed isPath
  rw [← isPathPosition_eq] at located
  exact ⟨located.ordered, located.complete, List.Forall₂.cons ⟨tree, rfl, placed⟩ List.Forall₂.nil⟩

/-- Walking through the children of a node finds the paths below it, if walking through each child
does. -/
theorem exists_enumeratesFrom_walkEach (start : Transform R) (items children : List (Tree R))
    (first : Nat) (left : items.drop first = children)
    (each : ∀ child ∈ children, (child.walk start).outcome = .ok () →
      ∃ positions, Enumerates start child positions (child.paths start))
    (fits : (walkEach start children).outcome = .ok ()) :
    ∃ positions, EnumeratesFrom start items first positions
      ((walkEach start children).events.filterMap Sighting.path?) := by
  have located : ∀ child ∈ children, (child.walk start).outcome = .ok () →
      ∃ positions, Locates child.IsPathPosition positions ∧
        List.Forall₂ (child.Shows start) positions (child.paths start) := by
    intro child member childFits
    obtain ⟨positions, ordered, complete, shown⟩ := each child member childFits
    exact ⟨positions, ⟨ordered, complete⟩, shown⟩
  obtain ⟨positions, ⟨ordered, complete⟩, shown⟩ :=
    exists_locates_walkEach start items children first left located fits
  exact ⟨positions, ordered, complete, shown⟩

theorem paths_path (start : Transform R) {head : Tree R} {rest tokens : List (Tree R)}
    (tagged : head.asTag? = some .path) (placed : placeTokens start (head :: rest) = .ok tokens) :
    (sequence .vector (head :: rest)).paths start = [.sequence .vector tokens] := by
  rw [paths, walk_path start rest tagged, placed]
  rfl

/-- A path shows itself, placed. -/
theorem exists_enumerates_path {start : Transform R} {head : Tree R} {rest : List (Tree R)}
    (tagged : head.asTag? = some .path)
    (fits : ((sequence .vector (head :: rest)).walk start).outcome = .ok ()) :
    ∃ positions, Enumerates start (.sequence .vector (head :: rest)) positions
      ((sequence .vector (head :: rest)).paths start) := by
  have isPath : (sequence .vector (head :: rest)).isPath := by
    rw [isPath, tag?, tagged]
    rfl
  cases placed : placeTokens start (head :: rest) with
  | error failure => rw [walk_path start rest tagged, placed] at fits; cases fits
  | ok tokens =>
    rw [paths_path start tagged placed]
    refine ⟨[[]], enumerates_path isPath ?_⟩
    show placeTokens start (head :: rest) >>= _ = _
    rw [placed]
    rfl

/-- A group shows what its children show. -/
theorem exists_enumerates_style {start : Transform R} {head : Tree R} {rest : List (Tree R)}
    (tagged : head.asTag? = some .style)
    (each : ∀ child ∈ rest.tail, (child.walk start).outcome = .ok () →
      ∃ positions, Enumerates start child positions (child.paths start))
    (fits : ((sequence .vector (head :: rest)).walk start).outcome = .ok ()) :
    ∃ positions, Enumerates start (.sequence .vector (head :: rest)) positions
      ((sequence .vector (head :: rest)).paths start) := by
  have style : (sequence .vector (head :: rest)).tag? = some .style := tagged
  rw [walk_style start rest tagged] at fits
  obtain ⟨positions, found⟩ :=
    exists_enumeratesFrom_walkEach start (head :: rest) rest.tail 2 List.drop_one each fits
  rw [paths, walk_style start rest tagged]
  refine ⟨positions, EnumeratesFrom.enumerates (Or.inl style) ?_⟩
  rw [ownMatrix?_of_style style]
  exact found

/-- A transform that has no matrix lets nothing through. -/
theorem enumerates_nil_of_transform (start : Transform R) {tree : Tree R}
    (transform : tree.tag? = some .transform)
    (noMatrix : ∀ matrix, tree.member? 1 = some matrix → ¬ matrix.HasMatrixForm) :
    Enumerates start tree [] [] := by
  refine enumerates_nil start ?_ ?_
  · rw [isPath, transform]
    decide
  · rintro (style | ⟨_, matrix, isMember, hasForm⟩)
    · rw [transform] at style
      cases style
    · exact noMatrix matrix isMember hasForm

/-- A transform with a matrix shows what its children show under the product. -/
theorem exists_enumerates_transform {start own : Transform R} {head matrix : Tree R}
    {children : List (Tree R)} (tagged : head.asTag? = some .transform)
    (read : matrix.matrix? = .ok (some own))
    (each : ∀ child ∈ children, (child.walk (start.compose own)).outcome = .ok () →
      ∃ positions, Enumerates (start.compose own) child positions
        (child.paths (start.compose own)))
    (fits : ((sequence .vector (head :: matrix :: children)).walk start).outcome = .ok ()) :
    ∃ positions, Enumerates start (.sequence .vector (head :: matrix :: children)) positions
      ((sequence .vector (head :: matrix :: children)).paths start) := by
  have transform : (sequence .vector (head :: matrix :: children)).tag? = some .transform := tagged
  have hasForm := hasMatrixForm_of_matrix? read
  rw [walk_transform start matrix children tagged, read] at fits
  rw [paths, walk_transform start matrix children tagged, read]
  obtain ⟨positions, found⟩ := exists_enumeratesFrom_walkEach (start.compose own)
    (head :: matrix :: children) children 2 rfl each fits
  refine ⟨positions, EnumeratesFrom.enumerates ?_ ?_⟩
  · exact Or.inr ⟨transform, matrix, rfl, hasForm⟩
  · rw [ownMatrix?_of_transform tagged read]
    exact found

/-- Node by node, what the children show makes up what the node shows. -/
theorem exists_enumerates_of_walk (tree : Tree R) : ∀ start : Transform R,
    (tree.walk start).outcome = .ok () →
      ∃ positions, Enumerates start tree positions (tree.paths start) := by
  induction tree using Tree.inductNodes with
  | path head rest tagged => exact fun start fits => exists_enumerates_path tagged fits
  | style head rest tagged each =>
    intro start fits
    exact exists_enumerates_style tagged (fun child member => each child member start) fits
  | transform head rest tagged each =>
    intro start fits
    cases rest with
    | nil =>
      rw [paths, walk_transform_nil start tagged]
      exact ⟨[], enumerates_nil_of_transform start tagged nofun⟩
    | cons matrix children =>
      cases read : matrix.matrix? with
      | error failure =>
        rw [walk_transform start matrix children tagged, read] at fits
        cases fits
      | ok own? =>
        cases own? with
        | none =>
          rw [paths, walk_transform start matrix children tagged, read]
          refine ⟨[], enumerates_nil_of_transform start tagged fun other isMember => ?_⟩
          rw [← Option.some.inj isMember]
          exact matrix?_eq_ok_none_iff.mp read
        | some own =>
          exact exists_enumerates_transform tagged read
            (fun child member => each child member (start.compose own)) fits
  | passive tree notPath notStyle notTransform =>
    intro start _
    rw [paths, walk_passive start notPath notStyle notTransform]
    refine ⟨[], enumerates_nil start (fun isPath => notPath (beq_iff_eq.mp isPath)) ?_⟩
    exact fun letsThrough => letsThrough.tag?.elim notStyle notTransform

/-- A walk that does not fail comes upon the paths of a drawing in the order of their positions:
upon every path that groups and proper transforms lead to, upon each once and upon nothing else,
and it shows each placed by the product of the map to start with and all matrices on the way. -/
theorem exists_enumerates_paths (tree : Tree R) : ∀ start : Transform R,
    (tree.walk start).outcome = .ok () →
      ∃ positions, Enumerates start tree positions (tree.paths start) :=
  tree.exists_enumerates_of_walk

/-- Below a translation and a scaling, with paths in style data, under a matrix of two numbers and
within a path, none of which is shown. -/
theorem exists_enumerates_paths_nested :
    let shape : Tree Float := .sequence .vector [.scalar (.keyword "path"),
      .scalar (.keyword "M"), .sequence .plain [.scalar (.integer 1), .real 0.5]]
    let tree : Tree Float := .sequence .vector [.scalar (.keyword "style"), shape,
      .sequence .vector [.scalar (.keyword "transform"), .array [1, 0, 0, 1, 10, 0],
        .sequence .vector [.scalar (.keyword "path"), shape],
        .sequence .vector [.scalar (.keyword "transform"), .array [2, 0, 0, 2, 0, 0], shape]],
      .sequence .vector [.scalar (.keyword "transform"), .array [1, 2], shape], shape]
    (tree.walk .identity).outcome = .ok () ∧
      ∃ positions, Enumerates .identity tree positions (tree.paths .identity) := by
  intro shape tree
  have fits : (tree.walk .identity).outcome = .ok () := by decide +kernel
  exact ⟨fits, exists_enumerates_paths tree .identity fits⟩

end Tree

end SketchForm
