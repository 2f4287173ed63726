/-
This file proves that a segment that cannot be drawn does not disturb its neighbours.

A keyword begins a segment wherever it stands, and placing moves points and nothing else.
So a path is drawn as if its tokens up to a keyword and those from it on were two paths,
one drawn after the other. A segment by itself leaves nothing on the canvas if no stroke
has its keyword for a letter, or if not as many points follow as the stroke asks for.
Whether tokens are points is judged before they are placed, for placing makes no point
and undoes none. So such a segment can stand at the end of a path or before any keyword,
and the same is drawn as without it.
-/
import SketchForm.Proofs.Appending
import SketchForm.Proofs.Partition
import SketchForm.Proofs.Placed

namespace SketchForm

variable {R : Type}

/-! ### Segments that are passed over -/

/-- Whether a keyword with the tokens after it makes up no stroke: it is the letter of none, or too
few tokens follow, or one of those that count is no point. -/
inductive Unusable : String → List (Tree R) → Prop where
  | unsupported {id : String} {rest : List (Tree R)}
      (unknown : ∀ stroke : Stroke, id ≠ stroke.letter) : Unusable id rest
  | short {stroke : Stroke} {rest : List (Tree R)} (few : rest.length < stroke.arity) :
      Unusable stroke.letter rest
  | notPoint {stroke : Stroke} {rest : List (Tree R)} {token : Tree R}
      (early : token ∈ rest.take stroke.arity) (other : token.isPoint = false) :
      Unusable stroke.letter rest

theorem letter_of_stroke? {id : String} {stroke : Stroke}
    (found : (Tree.scalar (.keyword id) : Tree R).stroke? = some stroke) : id = stroke.letter := by
  rw [Tree.stroke?, Tree.keyword?_keyword, Option.bind_some, Stroke.ofLetter?] at found
  have same := List.find?_some found
  exact (beq_iff_eq.mp same).symm

theorem isSome_frontPoints?_iff {count : Nat} {tokens : List (Tree R)} :
    (frontPoints? count tokens).isSome ↔
      count ≤ tokens.length ∧ ∀ token ∈ tokens.take count, token.realPoint?.isSome := by
  induction count generalizing tokens with
  | zero => simp [frontPoints?]
  | succ count inductionHypothesis =>
    cases tokens with
    | nil => simp [frontPoints?]
    | cons token rest =>
      rw [isSome_frontPoints?_cons, Bool.and_eq_true, inductionHypothesis, List.take_succ_cons,
        List.forall_mem_cons, List.length_cons, Nat.succ_le_succ_iff, and_left_comm]

/-- A segment of a known stroke is drawn exactly if the points are there. -/
theorem isSome_command?_markOf_letter {stroke : Stroke} {rest : List (Tree R)} :
    (markOf (.scalar (.keyword stroke.letter)) rest).command?.isSome ↔
      stroke.arity ≤ rest.length ∧
        ∀ token ∈ rest.take stroke.arity, token.realPoint?.isSome := by
  rw [← isSome_frontPoints?_iff, markOf]
  simp only [stroke?_letter]
  cases frontPoints? stroke.arity rest <;> rfl

section Placed

variable [Measure R] {matrix : Transform R}

/-- Placed tokens are points of reals where points were. -/
theorem Tree.isSome_realPoint?_of_place {token placed : Tree R}
    (ends : token.place matrix = .ok placed) : placed.realPoint?.isSome = token.isPoint := by
  cases isPoint : token.isPoint with
  | true =>
    obtain ⟨point, rfl⟩ := Tree.exists_ofPoint_of_place isPoint ends
    rfl
  | false =>
    obtain rfl := Tree.eq_of_place isPoint ends
    have noPoint : token.point? = none := by simpa [Tree.isPoint] using isPoint
    rw [Tree.realPoint?, noPoint]
    rfl

/-- Placed tokens are keywords where keywords were. -/
theorem Tree.isKeyword_of_place {token placed : Tree R} (ends : token.place matrix = .ok placed) :
    placed.isKeyword = token.isKeyword := by
  cases isPoint : token.isPoint with
  | true =>
    obtain ⟨point, rfl⟩ := Tree.exists_ofPoint_of_place isPoint ends
    cases isKeyword : token.isKeyword with
    | true =>
      obtain ⟨id, rfl⟩ := Tree.isKeyword_iff.mp isKeyword
      cases isPoint
    | false => rfl
  | false => rw [Tree.eq_of_place isPoint ends]

variable {rest placed : List (Tree R)}

/-- Tokens begin a segment once they are placed if they did so before. -/
theorem beginsSegment_placeTokens (begins : BeginsSegment rest)
    (ends : placeTokens matrix rest = .ok placed) : BeginsSegment placed := by
  intro head isHead
  obtain ⟨others, rfl⟩ := List.head?_eq_some_iff.mp isHead
  obtain ⟨token, sources, placedHead, _, rfl⟩ :=
    List.forall₂_cons_right_iff.mp (mapM_eq_ok_iff.mp ends)
  rw [Tree.isKeyword_of_place placedHead]
  exact begins token rfl

/-- A segment that makes up no stroke leaves no command. -/
theorem Unusable.command?_markOf {id : String} (unusable : Unusable id rest)
    (ends : placeTokens matrix rest = .ok placed) :
    (markOf (.scalar (.keyword id)) placed).command? = none := by
  have each := mapM_eq_ok_iff.mp ends
  refine Option.not_isSome_iff_eq_none.mp fun isDrawn => ?_
  cases unusable with
  | unsupported unknown =>
    have noStroke : (Tree.scalar (.keyword id) : Tree R).stroke? = none :=
      Option.eq_none_iff_forall_ne_some.mpr fun stroke found =>
        unknown stroke (letter_of_stroke? found)
    simp only [markOf, noStroke] at isDrawn
    cases isDrawn
  | short few =>
    have enough := (isSome_command?_markOf_letter.mp isDrawn).1
    exact absurd (each.length_eq ▸ enough) (Nat.not_le.mpr few)
  | notPoint early other =>
    obtain ⟨image, isEarly, isImage⟩ := exists_mem_of_forall₂ (List.forall₂_take _ each).flip early
    have isPoint := (isSome_command?_markOf_letter.mp isDrawn).2 image isEarly
    rw [Tree.isSome_realPoint?_of_place isImage, other] at isPoint
    cases isPoint

end Placed

/-! ### Paths side by side -/

namespace Tree

variable [Measure R]

/-- Whether a drawing is drawn to its end, and these are the commands. -/
structure Draws (tree : Tree R) (drawn : Canvas R) : Prop where
  ends : tree.draw.outcome = .ok ()
  commands_eq : tree.commands = drawn

/-- A path is drawn from its placed tokens, the tag in front of them. -/
theorem draw_pathNode (tokens : List (Tree R)) :
    (pathNode tokens).draw = Trail.settle (placeTokens .identity tokens) >>= fun placed =>
      ⟨marks (pathTag :: placed), .ok ()⟩ := by
  have tagged : placeTokens .identity (pathTag :: tokens) =
      placeTokens .identity tokens >>= fun placed => pure (pathTag :: placed) :=
    List.mapM_cons
  rw [draw_of_untagged? rfl, pathNode, walk_path .identity tokens rfl]
  show Trail.expand _ (Trail.settle (placeTokens .identity (pathTag :: tokens)) >>= _) = _
  rw [tagged]
  cases placeTokens .identity tokens with
  | error failure => rfl
  | ok placed => exact congrArg (Trail.mk · _) (List.append_nil _)

theorem draws_pathNode_iff {tokens : List (Tree R)} {drawn : Canvas R} :
    (pathNode tokens).Draws drawn ↔ ∃ placed, placeTokens .identity tokens = .ok placed ∧
      (marks (pathTag :: placed)).filterMap Mark.command? = drawn := by
  have draws := draw_pathNode tokens
  cases ends : placeTokens .identity tokens with
  | error failure =>
    rw [ends, Trail.settle_error_bind] at draws
    refine ⟨fun whole => ?_, nofun⟩
    have fails := whole.ends
    rw [draws] at fails
    cases fails
  | ok placed =>
    rw [ends, Trail.settle_ok_bind] at draws
    constructor
    · rintro ⟨_, rfl⟩
      rw [commands, draws]
      exact ⟨placed, rfl, rfl⟩
    · rintro ⟨_, same, rfl⟩
      cases same
      refine ⟨congrArg Trail.outcome draws, ?_⟩
      rw [commands, draws]

variable {front back : List (Tree R)} {drawn others : Canvas R}

theorem Draws.append (begins : BeginsSegment back) (first : (pathNode front).Draws drawn)
    (second : (pathNode back).Draws others) :
    (pathNode (front ++ back)).Draws (drawn ++ others) := by
  obtain ⟨placedFront, frontEnds, rfl⟩ := draws_pathNode_iff.mp first
  obtain ⟨placedBack, backEnds, rfl⟩ := draws_pathNode_iff.mp second
  have ends : placeTokens .identity (front ++ back) = .ok (placedFront ++ placedBack) :=
    mapM_eq_ok_iff.mpr (List.rel_append (mapM_eq_ok_iff.mp frontEnds) (mapM_eq_ok_iff.mp backEnds))
  refine draws_pathNode_iff.mpr ⟨_, ends, ?_⟩
  have placedBegins := beginsSegment_placeTokens begins backEnds
  rw [marks_append (isPathTag_iff.mpr rfl) placedFront placedBegins, List.filterMap_append]

theorem fits_pathNode_append :
    (pathNode (front ++ back)).Fits ↔ (pathNode front).Fits ∧ (pathNode back).Fits := by
  rw [fits_pathNode, fits_pathNode, fits_pathNode, List.forall_mem_append]

theorem exists_draws {tokens : List (Tree R)} (fits : (pathNode tokens).Fits) :
    ∃ drawn, (pathNode tokens).Draws drawn := by
  obtain ⟨_, ends⟩ := (pathNode tokens).endsIff_draw.ends fits
  exact ⟨_, ends, rfl⟩

theorem draws_nil_of_unusable {id : String} {rest : List (Tree R)} (unusable : Unusable id rest)
    (plain : ∀ token ∈ rest, token.isKeyword = false)
    (fits : (pathNode (.scalar (.keyword id) :: rest)).Fits) :
    (pathNode (.scalar (.keyword id) :: rest)).Draws [] := by
  obtain ⟨drawn, draws⟩ := exists_draws fits
  obtain ⟨_, ends, rfl⟩ := draws_pathNode_iff.mp draws
  have tagged : (Tree.scalar (.keyword id) : Tree R).asTag? = some (Tag.ofId id) := rfl
  obtain ⟨placed, rfl, restEnds⟩ := placeTokens_cons_tag tagged ends
  have placedPlain : ∀ token ∈ placed, token.isKeyword = false := by
    intro token member
    obtain ⟨source, isSource, isPlaced⟩ := exists_mem_of_forall₂ (mapM_eq_ok_iff.mp restEnds) member
    rw [isKeyword_of_place isPlaced, plain source isSource]
  have passedOver := unusable.command?_markOf restEnds
  refine draws_pathNode_iff.mpr ⟨_, ends, ?_⟩
  rw [marks, segments_single (isPathTag_iff.mpr rfl) _ placedPlain]
  simp [passedOver]

/-- The tokens of a path up to a keyword and those from it on are drawn like two paths. And a
keyword with tokens after it that make up no stroke can be put in front of a keyword or at the end,
and what is drawn is the same. -/
theorem segments_drawn_apart (front : List (Tree R)) {back : List (Tree R)}
    (begins : BeginsSegment back) :
    ((pathNode (front ++ back)).Fits →
      ∃ first second, (pathNode front).Draws first ∧ (pathNode back).Draws second ∧
        (pathNode (front ++ back)).Draws (first ++ second)) ∧
      ∀ id rest, (∀ token ∈ rest, token.isKeyword = false) → Unusable id rest →
        (pathNode (front ++ .scalar (.keyword id) :: (rest ++ back))).Fits →
          ∃ drawn, (pathNode (front ++ back)).Draws drawn ∧
            (pathNode (front ++ .scalar (.keyword id) :: (rest ++ back))).Draws drawn := by
  constructor
  · intro fits
    obtain ⟨frontFits, backFits⟩ := fits_pathNode_append.mp fits
    obtain ⟨first, drawsFirst⟩ := exists_draws frontFits
    obtain ⟨second, drawsSecond⟩ := exists_draws backFits
    exact ⟨first, second, drawsFirst, drawsSecond, drawsFirst.append begins drawsSecond⟩
  · intro id rest plain unusable fits
    rw [← List.cons_append, fits_pathNode_append, fits_pathNode_append] at fits
    obtain ⟨frontFits, segmentFits, backFits⟩ := fits
    obtain ⟨first, drawsFirst⟩ := exists_draws frontFits
    obtain ⟨second, drawsSecond⟩ := exists_draws backFits
    have drawsRest := (draws_nil_of_unusable unusable plain segmentFits).append begins drawsSecond
    exact ⟨first ++ second, drawsFirst.append begins drawsSecond,
      drawsFirst.append (beginsSegment_keyword id _) drawsRest⟩

/-- A line to a number is passed over, the point after it notwithstanding. -/
theorem segments_drawn_apart_lineToNumber :
    let corner : Tree Float := .sequence .list [.scalar (.integer 1), .scalar (.integer 2)]
    let front : List (Tree Float) := [.scalar (.keyword "M"), corner]
    let back : List (Tree Float) := [.scalar (.keyword "Z")]
    let line : List (Tree Float) := [.scalar (.keyword "L"), .scalar (.integer 7), corner]
    ∃ first second, first.map Command.stroke = [.move] ∧ second.map Command.stroke = [.close] ∧
      (pathNode (front ++ line ++ back)).Draws (first ++ second) := by
  intro corner front back line
  have plain : ∀ token ∈ [.scalar (.integer 7), corner], token.isKeyword = false :=
    List.forall_mem_cons.mpr ⟨rfl, List.forall_mem_singleton.mpr rfl⟩
  have unusable : Unusable Stroke.line.letter [.scalar (.integer 7), corner] :=
    .notPoint List.mem_cons_self rfl
  have ends : (pathNode (front ++ back)).draw.outcome = .ok () := by decide +kernel
  have moreEnds : (pathNode (front ++ line ++ back)).draw.outcome = .ok () := by decide +kernel
  obtain ⟨apart, skipped⟩ := @segments_drawn_apart Float _ front back (beginsSegment_keyword "Z" [])
  obtain ⟨first, second, drawsFirst, drawsSecond, draws⟩ :=
    apart ((pathNode _).endsIff_draw.holds ends)
  obtain ⟨drawn, without, within⟩ :=
    skipped "L" _ plain unusable ((pathNode _).endsIff_draw.holds moreEnds)
  rw [← without.commands_eq, draws.commands_eq] at within
  refine ⟨first, second, ?_, ?_, within⟩
  · rw [← drawsFirst.commands_eq]
    decide +kernel
  · rw [← drawsSecond.commands_eq]
    decide +kernel

end Tree

end SketchForm
