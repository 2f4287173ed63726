/-
This file proves that coordinates and matrices have no part in how a drawing is made up.

Two drawings are alike if they differ at most in the coordinates of the points of their
paths and in the numbers of their matrices, and in what a walk never looks into. Which
numbers these are, whole or real, large or none at all, decides nothing: the paths that
are found have their points at the same places and are the same elsewhere, they fall into
the same segments, and the same strokes are drawn with as many points. Only a number that
cannot be computed with could make a difference, so all numbers have to fit.

The point on which this turns is that a point stays a point when it is placed, and that
nothing else becomes one. So what was alike before placing is alike after it, under
whatever two maps.
-/
import Mathlib.Data.List.SplitBy
import SketchForm.Proofs.Interruption
import SketchForm.Proofs.Placed

namespace SketchForm

variable {R : Type}

namespace Tree

/-! ### Drawings that are alike -/

/-- Whether two tokens are both points, or else the same. -/
structure Matches (token other : Tree R) : Prop where
  isPoint : token.isPoint = other.isPoint
  same : token.isPoint = false → token = other

/-- Whether two drawings differ at most in the coordinates of the points of their paths, in the
numbers of their matrices, and in what belongs to no drawing. -/
inductive Alike : Tree R → Tree R → Prop where
  | path {head : Tree R} {tokens others : List (Tree R)} (tagged : head.asTag? = some .path)
      (each : List.Forall₂ Matches tokens others) :
      Alike (.sequence .vector (head :: tokens)) (.sequence .vector (head :: others))
  | style {head : Tree R} {rest others : List (Tree R)} (tagged : head.asTag? = some .style)
      (each : List.Forall₂ Alike rest.tail others.tail) :
      Alike (.sequence .vector (head :: rest)) (.sequence .vector (head :: others))
  | transform {head matrix otherMatrix : Tree R} {children others : List (Tree R)}
      (tagged : head.asTag? = some .transform) (hasForm : matrix.HasMatrixForm)
      (otherHasForm : otherMatrix.HasMatrixForm) (each : List.Forall₂ Alike children others) :
      Alike (.sequence .vector (head :: matrix :: children))
        (.sequence .vector (head :: otherMatrix :: others))
  | hidden {tree other : Tree R} (notPath : ¬ tree.isPath) (closed : ¬ tree.LetsThrough)
      (otherNotPath : ¬ other.isPath) (otherClosed : ¬ other.LetsThrough) : Alike tree other

/-- Induction over two drawings that are alike, node by node. -/
theorem Alike.induct {motive : Tree R → Tree R → Prop}
    (path : ∀ (head : Tree R) tokens others, head.asTag? = some .path →
      List.Forall₂ Matches tokens others →
        motive (.sequence .vector (head :: tokens)) (.sequence .vector (head :: others)))
    (style : ∀ (head : Tree R) rest others, head.asTag? = some .style →
      List.Forall₂ motive rest.tail others.tail →
        motive (.sequence .vector (head :: rest)) (.sequence .vector (head :: others)))
    (transform : ∀ (head matrix otherMatrix : Tree R) children others,
      head.asTag? = some .transform → matrix.HasMatrixForm → otherMatrix.HasMatrixForm →
        List.Forall₂ motive children others →
          motive (.sequence .vector (head :: matrix :: children))
            (.sequence .vector (head :: otherMatrix :: others)))
    (hidden : ∀ tree other : Tree R, ¬ tree.isPath → ¬ tree.LetsThrough → ¬ other.isPath →
      ¬ other.LetsThrough → motive tree other)
    {tree other : Tree R} (alike : tree.Alike other) : motive tree other := by
  refine Alike.rec (motive_1 := fun tree other _ => motive tree other)
    (motive_2 := fun children others _ => List.Forall₂ motive children others)
    ?_ ?_ ?_ ?_ ?_ ?_ alike
  · exact fun tagged each => path _ _ _ tagged each
  · exact fun tagged _ below => style _ _ _ tagged below
  · exact fun tagged hasForm otherHasForm _ below =>
      transform _ _ _ _ _ tagged hasForm otherHasForm below
  · exact fun notPath closed otherNotPath otherClosed =>
      hidden _ _ notPath closed otherNotPath otherClosed
  · exact List.Forall₂.nil
  · exact fun _ _ first others => List.Forall₂.cons first others

/-- Whether two paths are vectors of as many tokens, with points at the same places and equal tokens
elsewhere, and fall into segments at the same places. -/
inductive PathsMatch : Tree R → Tree R → Prop where
  | vector {tokens others : List (Tree R)} (each : List.Forall₂ Matches tokens others)
      (places : (SketchForm.segments tokens).map List.length =
        (SketchForm.segments others).map List.length) :
      PathsMatch (.sequence .vector tokens) (.sequence .vector others)

/-! ### Placed tokens that are alike -/

/-- Whether two placed tokens are both points of reals, or else the same. -/
def PlacedAlike (token other : Tree R) : Prop :=
  (∃ point otherPoint, token = ofPoint point ∧ other = ofPoint otherPoint) ∨
    token = other ∧ token.isPoint = false

variable {token other : Tree R} {tokens others : List (Tree R)}

theorem PlacedAlike.matches (alike : token.PlacedAlike other) : token.Matches other := by
  rcases alike with ⟨point, otherPoint, rfl, rfl⟩ | ⟨rfl, _⟩
  · exact ⟨rfl, nofun⟩
  · exact ⟨rfl, fun _ => rfl⟩

theorem PlacedAlike.keyword?_eq (alike : token.PlacedAlike other) :
    token.keyword? = other.keyword? := by
  rcases alike with ⟨point, otherPoint, rfl, rfl⟩ | ⟨rfl, _⟩
  · rfl
  · rfl

theorem PlacedAlike.isSome_realPoint?_eq (alike : token.PlacedAlike other) :
    token.realPoint?.isSome = other.realPoint?.isSome := by
  rcases alike with ⟨point, otherPoint, rfl, rfl⟩ | ⟨rfl, _⟩
  · rfl
  · rfl

/-- Tokens that were alike are alike when they have been placed, under whatever two maps. -/
theorem Matches.place [Measure R] {matrix otherMatrix : Transform R}
    (alike : token.Matches other) {placed otherPlaced : Tree R}
    (ends : token.place matrix = .ok placed)
    (otherEnds : other.place otherMatrix = .ok otherPlaced) : placed.PlacedAlike otherPlaced := by
  cases isPoint : token.isPoint with
  | true =>
    obtain ⟨point, rfl⟩ := exists_ofPoint_of_place isPoint ends
    obtain ⟨otherPoint, rfl⟩ := exists_ofPoint_of_place (alike.isPoint ▸ isPoint) otherEnds
    exact .inl ⟨point, otherPoint, rfl, rfl⟩
  | false =>
    cases alike.same isPoint
    cases eq_of_place isPoint ends
    cases eq_of_place isPoint otherEnds
    exact .inr ⟨rfl, isPoint⟩

theorem placedAlike_placeTokens [Measure R] {matrix otherMatrix : Transform R}
    (each : List.Forall₂ Matches tokens others) {placed otherPlaced : List (Tree R)}
    (ends : placeTokens matrix tokens = .ok placed)
    (otherEnds : placeTokens otherMatrix others = .ok otherPlaced) :
    List.Forall₂ PlacedAlike placed otherPlaced := by
  rw [placeTokens, mapM_eq_ok_iff] at ends otherEnds
  induction each generalizing placed otherPlaced with
  | nil =>
    cases ends
    cases otherEnds
    exact .nil
  | cons first _ inductionHypothesis =>
    cases ends with
    | cons firstEnds restEnds =>
      cases otherEnds with
      | cons otherFirstEnds otherRestEnds =>
        exact .cons (first.place firstEnds otherFirstEnds)
          (inductionHypothesis restEnds otherRestEnds)

/-! ### Segments and strokes -/

/-- Lists of tokens that are alike are split at the same places: what makes a segment end is a
keyword, and a keyword has only itself for a partner. -/
theorem forall₂_splitBy_loop (each : List.Forall₂ PlacedAlike tokens others)
    (last : token.PlacedAlike other) {open? otherOpen : List (Tree R)}
    (opened : List.Forall₂ PlacedAlike open? otherOpen) {closed otherClosed : List (List (Tree R))}
    (before : List.Forall₂ (List.Forall₂ PlacedAlike) closed otherClosed) :
    List.Forall₂ (List.Forall₂ PlacedAlike)
      (List.splitBy.loop (fun _ next => !next.isKeyword) tokens token open? closed)
      (List.splitBy.loop (fun _ next => !next.isKeyword) others other otherOpen otherClosed) := by
  have flush : ∀ {token other : Tree R} {segment otherSegment : List (Tree R)},
      token.PlacedAlike other → List.Forall₂ PlacedAlike segment otherSegment →
        List.Forall₂ PlacedAlike (token :: segment).reverse (other :: otherSegment).reverse :=
    fun last opened => List.forall₂_reverse_iff.mpr (.cons last opened)
  induction each generalizing token other open? otherOpen closed otherClosed with
  | nil =>
    rw [List.splitBy.loop, List.splitBy.loop]
    exact List.forall₂_reverse_iff.mpr (.cons (flush last opened) before)
  | @cons next otherNext _ _ first _ inductionHypothesis =>
    have sameKeyword : next.isKeyword = otherNext.isKeyword :=
      congrArg Option.isSome first.keyword?_eq
    rw [List.splitBy.loop, List.splitBy.loop, sameKeyword]
    cases otherNext.isKeyword with
    | true => exact inductionHypothesis first .nil (.cons (flush last opened) before)
    | false => exact inductionHypothesis first (.cons last opened) before

theorem placedAlike_segments (each : List.Forall₂ PlacedAlike tokens others) :
    List.Forall₂ (List.Forall₂ PlacedAlike) (SketchForm.segments tokens)
      (SketchForm.segments others) := by
  have splits : ∀ {tokens others : List (Tree R)}, List.Forall₂ PlacedAlike tokens others →
      List.Forall₂ (List.Forall₂ PlacedAlike) (tokens.splitBy fun _ next => !next.isKeyword)
        (others.splitBy fun _ next => !next.isKeyword) := by
    intro tokens others each
    cases each with
    | nil => exact .nil
    | cons first rest => exact forall₂_splitBy_loop rest first .nil .nil
  cases each with
  | nil => exact .nil
  | @cons head otherHead _ _ first rest =>
    have sameTag : head.isPathTag = otherHead.isPathTag := by
      rw [isPathTag, isPathTag, asTag?, asTag?, first.keyword?_eq]
    rw [SketchForm.segments, SketchForm.segments, dropPathTag, dropPathTag, sameTag]
    cases otherHead.isPathTag with
    | true => exact splits rest
    | false => exact splits (.cons first rest)

theorem PathsMatch.of_placed (each : List.Forall₂ PlacedAlike tokens others) :
    PathsMatch (.sequence .vector tokens) (.sequence .vector others) := by
  refine .vector (each.imp fun _ _ alike => alike.matches) ?_
  have lengths := (placedAlike_segments each).imp fun _ _ alike => alike.length_eq
  exact List.forall₂_eq_eq_eq ▸
    List.forall₂_map_left_iff.mpr (List.forall₂_map_right_iff.mpr lengths)

end Tree

/-! ### Commands -/

/-- A command but for its coordinates: the stroke, and how many coordinates there are. -/
def Command.signature (command : Command R) : Stroke × Nat :=
  (command.stroke, command.coordinates.length)

theorem Command.length_coordinates (command : Command R) :
    command.coordinates.length = 2 * command.points.length := by
  rw [coordinates, List.length_flatMap]
  simp [Nat.mul_comm]

theorem length_of_frontPoints? {count : Nat} {tokens : List (Tree R)} {points : List (R × R)}
    (found : frontPoints? count tokens = some points) : points.length = count := by
  induction count generalizing tokens points with
  | zero => cases found; rfl
  | succ count inductionHypothesis =>
    cases tokens with
    | nil => cases found
    | cons token rest =>
      obtain ⟨point, _, found⟩ := Option.bind_eq_some_iff.mp found
      obtain ⟨others, more, found⟩ := Option.bind_eq_some_iff.mp found
      cases found
      rw [List.length_cons, inductionHypothesis more]

variable {token other : Tree R} {tokens others : List (Tree R)}

theorem isSome_frontPoints?_eq (count : Nat) (each : List.Forall₂ Tree.PlacedAlike tokens others) :
    (frontPoints? count tokens).isSome = (frontPoints? count others).isSome := by
  induction count generalizing tokens others with
  | zero => rfl
  | succ count inductionHypothesis =>
    cases each with
    | nil => rfl
    | cons first rest =>
      rw [isSome_frontPoints?_cons, isSome_frontPoints?_cons, first.isSome_realPoint?_eq,
        inductionHypothesis rest]

/-- What a segment draws, but for coordinates: its stroke, if the points for it are there. -/
theorem map_signature_markOf (head : Tree R) (rest : List (Tree R)) :
    (markOf head rest).command?.map Command.signature =
      head.stroke?.bind fun stroke =>
        if (frontPoints? stroke.arity rest).isSome then some (stroke, 2 * stroke.arity)
        else none := by
  rw [markOf]
  cases head.stroke? with
  | none => rfl
  | some stroke =>
    cases found : frontPoints? stroke.arity rest with
    | none => simp [found, Mark.command?]
    | some points =>
      simp [found, Mark.command?, Command.signature, Command.length_coordinates,
        length_of_frontPoints? found]

/-- Segments that are alike draw the same stroke with as many coordinates, or nothing. -/
theorem map_signature_markOf_eq (first : token.PlacedAlike other)
    (each : List.Forall₂ Tree.PlacedAlike tokens others) :
    (markOf token tokens).command?.map Command.signature =
      (markOf other others).command?.map Command.signature := by
  have sameStroke : token.stroke? = other.stroke? := by
    rw [Tree.stroke?, Tree.stroke?, first.keyword?_eq]
  simp only [map_signature_markOf, sameStroke, isSome_frontPoints?_eq _ each]

/-- Paths that are alike draw the same strokes with as many coordinates each. -/
theorem map_signature_marks_eq (each : List.Forall₂ Tree.PlacedAlike tokens others) :
    ((marks tokens).filterMap Mark.command?).map Command.signature =
      ((marks others).filterMap Mark.command?).map Command.signature := by
  have alike := Tree.placedAlike_segments each
  rw [List.map_filterMap, List.map_filterMap, marks, marks]
  generalize segments tokens = here at alike
  generalize segments others = there at alike
  induction alike with
  | nil => rfl
  | cons segment _ inductionHypothesis =>
    simp only [List.flatMap_cons, List.filterMap_append, inductionHypothesis]
    cases segment with
    | nil => rfl
    | cons first rest =>
      simp only [List.filterMap_cons, List.filterMap_nil, map_signature_markOf_eq first rest]

/-! ### Whole drawings -/

namespace Tree

/-- Whether two paths are vectors of placed tokens that are alike. -/
def PathsAlike (path other : Tree R) : Prop :=
  ∃ tokens others, path = .sequence .vector tokens ∧ other = .sequence .vector others ∧
    List.Forall₂ PlacedAlike tokens others

theorem PathsAlike.match {path other : Tree R} (alike : path.PathsAlike other) :
    path.PathsMatch other := by
  obtain ⟨tokens, others, rfl, rfl, each⟩ := alike
  exact .of_placed each

theorem PathsAlike.map_signature_eq {path other : Tree R} (alike : path.PathsAlike other) :
    path.pathCommands.map Command.signature = other.pathCommands.map Command.signature := by
  obtain ⟨tokens, others, rfl, rfl, each⟩ := alike
  exact map_signature_marks_eq each

variable [Measure R]

/-- Where nothing leads to a path, none is shown. -/
theorem paths_eq_nil {tree : Tree R} (notPath : ¬ tree.isPath) (closed : ¬ tree.LetsThrough)
    (fits : tree.Fits) (start : Transform R) : tree.paths start = [] := by
  obtain ⟨_, ends⟩ := (tree.endsIff_walk start).ends fits
  obtain ⟨positions, found⟩ := tree.exists_enumerates_of_walk start ends
  have none : positions = [] := by
    refine List.eq_nil_iff_forall_not_mem.mpr fun position member => ?_
    exact List.not_mem_nil (((enumerates_nil start notPath closed).complete position).mpr
      ((found.complete position).mp member))
  rw [none] at found
  exact List.forall₂_nil_left_iff.mp found.shown

/-- What a walk finds below a node is what it finds below one child after another. -/
theorem paths_walkEach_cons {child : Tree R} (fits : child.Fits) (start : Transform R)
    (rest : List (Tree R)) :
    (walkEach start (child :: rest)).events.filterMap Sighting.path? =
      child.paths start ++ (walkEach start rest).events.filterMap Sighting.path? := by
  obtain ⟨_, ends⟩ := (child.endsIff_walk start).ends fits
  rw [walkEach, Trail.bind_of_ok _ ends, List.filterMap_append]
  rfl

/-- Whether the paths of two drawings are alike, provided that all numbers fit. -/
def FindsAlike (tree other : Tree R) : Prop :=
  tree.Fits → other.Fits → ∀ start otherStart,
    List.Forall₂ PathsAlike (tree.paths start) (other.paths otherStart)

theorem pathsAlike_walkEach {children others : List (Tree R)}
    (each : List.Forall₂ FindsAlike children others) (fits : ∀ child ∈ children, child.Fits)
    (otherFits : ∀ other ∈ others, other.Fits) (start otherStart : Transform R) :
    List.Forall₂ PathsAlike ((walkEach start children).events.filterMap Sighting.path?)
      ((walkEach otherStart others).events.filterMap Sighting.path?) := by
  induction each with
  | nil => exact .nil
  | cons first _ inductionHypothesis =>
    rw [List.forall_mem_cons] at fits otherFits
    rw [paths_walkEach_cons fits.1, paths_walkEach_cons otherFits.1]
    exact List.rel_append (first fits.1 otherFits.1 start otherStart)
      (inductionHypothesis fits.2 otherFits.2)

/-- Drawings that are alike have paths that are alike. -/
theorem Alike.findsAlike {tree other : Tree R} (alike : tree.Alike other) :
    tree.FindsAlike other := by
  refine Alike.induct ?path ?style ?transform ?hidden alike
  case path =>
    intro head tokens others tagged each fits otherFits start otherStart
    rw [fits_path _ tagged] at fits otherFits
    obtain ⟨placed, ends⟩ := (endsIff_placeTokens start (head :: tokens)).ends fits
    obtain ⟨otherPlaced, otherEnds⟩ :=
      (endsIff_placeTokens otherStart (head :: others)).ends otherFits
    rw [paths_path start tagged ends, paths_path otherStart tagged otherEnds]
    refine .cons ⟨_, _, rfl, rfl, ?_⟩ .nil
    exact placedAlike_placeTokens (.cons ⟨rfl, fun _ => rfl⟩ each) ends otherEnds
  case style =>
    intro head rest others tagged each fits otherFits start otherStart
    rw [fits_style _ tagged] at fits otherFits
    rw [paths, paths, walk_style start rest tagged, walk_style otherStart others tagged]
    exact pathsAlike_walkEach each fits otherFits start otherStart
  case transform =>
    intro head matrix otherMatrix children others tagged hasForm otherHasForm each fits otherFits
      start otherStart
    rw [fits_transform _ _ tagged] at fits otherFits
    obtain ⟨own, read⟩ := exists_matrix?_eq hasForm fits.1
    obtain ⟨otherOwn, otherRead⟩ := exists_matrix?_eq otherHasForm otherFits.1
    rw [paths, paths, walk_transform start matrix children tagged,
      walk_transform otherStart otherMatrix others tagged, read, otherRead]
    exact pathsAlike_walkEach each (fits.2 hasForm) (otherFits.2 otherHasForm) (start.compose own)
      (otherStart.compose otherOwn)
  case hidden =>
    intro tree other notPath closed otherNotPath otherClosed fits otherFits start otherStart
    rw [paths_eq_nil notPath closed fits, paths_eq_nil otherNotPath otherClosed otherFits]
    exact .nil

/-- A path without its tag is drawn as it is placed. -/
theorem exists_commands_eq_of_untagged {tree : Tree R} {tokens : List (Tree R)}
    (untagged : tree.untagged? = some tokens) (fits : tree.meant.Fits) :
    ∃ placed, placeTokens .identity tokens = .ok placed ∧
      tree.commands = (marks placed).filterMap Mark.command? := by
  rw [meant, untagged, fits_path tokens rfl] at fits
  obtain ⟨placed, ends⟩ := (endsIff_placeTokens .identity tokens).ends fun token member =>
    fits token (List.mem_cons_of_mem _ member)
  refine ⟨placed, ends, ?_⟩
  rw [commands, draw_untagged untagged, ends]
  rfl

omit [Measure R] in
theorem exists_tag?_of_untagged? {tree : Tree R} {tokens : List (Tree R)}
    (untagged : tree.untagged? = some tokens) : ∃ id, tree.tag? = some (.other id) := by
  unfold untagged? at untagged
  split at untagged
  · split at untagged
    · exact ⟨_, ‹_›⟩
    · cases untagged
  · cases untagged

/-- If the numbers of what a value is drawn as fit, then so do its own; a path without its tag has
none. -/
theorem fits_of_fits_meant {tree : Tree R} (fits : tree.meant.Fits) : tree.Fits := by
  rw [meant] at fits
  cases untagged : tree.untagged? with
  | none =>
    rw [untagged] at fits
    exact fits
  | some tokens =>
    obtain ⟨id, tagged⟩ := exists_tag?_of_untagged? untagged
    refine fits_passive ?_ ?_ ?_ <;> simp [tagged]

omit [Measure R] in
theorem map_signature_flatMap_eq {paths others : List (Tree R)}
    (each : List.Forall₂ PathsAlike paths others) :
    (paths.flatMap pathCommands).map Command.signature =
      (others.flatMap pathCommands).map Command.signature := by
  induction each with
  | nil => rfl
  | cons first _ inductionHypothesis =>
    rw [List.flatMap_cons, List.flatMap_cons, List.map_append, List.map_append,
      first.map_signature_eq, inductionHypothesis]

/-- Take two drawings that differ at most in the coordinates of the points of their paths, in the
numbers of their matrices, and in what belongs to no drawing, where all numbers fit. They have as
many paths, whose points stand at the same places and whose other tokens are the same, and which
fall into segments at the same places. And they are drawn with the same strokes, each with as many
coordinates. -/
theorem Alike.drawn_alike {tree other : Tree R} (alike : tree.Alike other)
    (untagged : Option.Rel (List.Forall₂ Matches) tree.untagged? other.untagged?)
    (fits : tree.meant.Fits) (otherFits : other.meant.Fits) :
    (∀ start otherStart,
        List.Forall₂ PathsMatch (tree.paths start) (other.paths otherStart)) ∧
      tree.commands.map Command.signature = other.commands.map Command.signature := by
  have found := alike.findsAlike (fits_of_fits_meant fits) (fits_of_fits_meant otherFits)
  refine ⟨fun start otherStart => (found start otherStart).imp fun _ _ alike => alike.match, ?_⟩
  cases isUntagged : tree.untagged? with
  | some tokens =>
    cases otherUntagged : other.untagged? with
    | none => rw [isUntagged, otherUntagged] at untagged; cases untagged
    | some others =>
      obtain ⟨placed, ends, commands⟩ := exists_commands_eq_of_untagged isUntagged fits
      obtain ⟨otherPlaced, otherEnds, otherCommands⟩ :=
        exists_commands_eq_of_untagged otherUntagged otherFits
      rw [isUntagged, otherUntagged] at untagged
      cases untagged with
      | some each =>
        rw [commands, otherCommands]
        exact map_signature_marks_eq (placedAlike_placeTokens each ends otherEnds)
  | none =>
    cases otherUntagged : other.untagged? with
    | some others => rw [isUntagged, otherUntagged] at untagged; cases untagged
    | none =>
      rw [commands_eq_flatMap isUntagged, commands_eq_flatMap otherUntagged]
      exact map_signature_flatMap_eq (found .identity .identity)

/-- A path of two strokes under a matrix, with a number beside the first point. -/
def twoStrokes (matrix first second : Tree Float) : Tree Float :=
  .sequence .vector [.scalar (.keyword "transform"), matrix,
    .sequence .vector [.scalar (.keyword "path"), .scalar (.keyword "M"), first,
      .scalar (.integer 7), .scalar (.keyword "L"), second]]

/-- Under a translation and under a matrix with hardly a proper number in it; the points are whole
in one drawing and real in the other, and some of the reals are infinite or no numbers. -/
theorem Alike.drawn_alike_improper :
    let tree := twoStrokes (.array [1, 0, 0, 1, 10, 0])
      (.sequence .vector [.scalar (.integer 1), .scalar (.integer 2)])
      (.sequence .vector [.real 0.5, .scalar (.integer 2)])
    let other := twoStrokes (.array [0 / 0, 1 / 0, 0 / 0, 1 / 0, 0 / 0, 0])
      (.sequence .vector [.real (0 / 0), .scalar (.integer 2)])
      (.sequence .vector [.scalar (.integer (-3)), .real (1 / 0)])
    List.Forall₂ PathsMatch (tree.paths .identity) (other.paths .identity) ∧
      other.commands.map Command.signature = [(.move, 2), (.line, 2)] := by
  intro tree other
  have alike : tree.Alike other := by
    refine .transform rfl ⟨_, rfl, rfl⟩ ⟨_, rfl, rfl⟩ (.cons (.path rfl ?_) .nil)
    have unchanged : ∀ token : Tree Float, token.Matches token := fun _ => ⟨rfl, fun _ => rfl⟩
    exact .cons (unchanged _) (.cons ⟨rfl, nofun⟩ (.cons (unchanged _) (.cons (unchanged _)
      (.cons ⟨rfl, nofun⟩ .nil))))
  have ends : tree.draw.outcome = .ok () := by decide +kernel
  have otherEnds : other.draw.outcome = .ok () := by decide +kernel
  obtain ⟨paths, commands⟩ :=
    alike.drawn_alike .none (tree.endsIff_draw.holds ends) (other.endsIff_draw.holds otherEnds)
  refine ⟨paths .identity .identity, ?_⟩
  rw [← commands]
  decide +kernel

end Tree

end SketchForm
