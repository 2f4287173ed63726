/-
This file proves that drawing drops nothing without a trace.

Every segment of every path that a drawing shows either is drawn or has a record that
says why it is not: the keyword at its head is that of no stroke, or the points that the
stroke asks for do not follow. So the commands and the records of ignored segments are
together as many as there are segments, and each segment has exactly one of the two, in
order. What goes missing with a transform has a record as well, one for every transform
without a matrix that is reached, and the same records come about when the drawing is
written as text.

A path is drawn as placed. There every point is a pair of reals, so that tokens that are
points can always be drawn, and a segment is passed over only for what it lacks.
-/
import SketchForm.Proofs.Interruption
import SketchForm.Proofs.Logging
import SketchForm.Proofs.Malformed
import SketchForm.Proofs.Skipping

namespace SketchForm

variable {R : Type}

/-! ### One segment -/

/-- What comes of a segment: a stroke, if its keyword and the points for it are in front, and else a
notice, either that the head is the keyword of no stroke or that points are missing. -/
inductive Yields : List (Tree R) → Mark R → Prop
  | drawn {stroke : Stroke} {points : List (R × R)} {rest : List (Tree R)}
      (count : points.length = stroke.arity) :
      Yields (.scalar (.keyword stroke.letter) :: (points.map Tree.ofPoint ++ rest))
        (.drawn ⟨stroke, points⟩)
  | unsupported {head : Tree R} {rest : List (Tree R)}
      (unknown : ∀ stroke : Stroke, head ≠ .scalar (.keyword stroke.letter)) :
      Yields (head :: rest) (.passedOver (.unsupportedCommand head))
  | incomplete {stroke : Stroke} {rest : List (Tree R)}
      (missing : ¬ (stroke.arity ≤ rest.length ∧
        ∀ token ∈ rest.take stroke.arity, token.isPoint)) :
      Yields (.scalar (.keyword stroke.letter) :: rest)
        (.passedOver (.incompleteSegment (.scalar (.keyword stroke.letter)) rest))

/-- Whether all points among tokens are pairs of reals, as they are once they are placed. -/
def HasRealPoints (tokens : List (Tree R)) : Prop :=
  ∀ token ∈ tokens, token.isPoint → ∃ point, Tree.ofPoint point = token

theorem HasRealPoints.tail {head : Tree R} {rest : List (Tree R)}
    (real : HasRealPoints (head :: rest)) : HasRealPoints rest :=
  fun token member => real token (List.mem_cons_of_mem _ member)

theorem Tree.isPoint_of_realPoint? {token : Tree R} {point : R × R}
    (read : token.realPoint? = some point) : token.isPoint := by
  rw [isPoint, Option.isSome_iff_ne_none]
  intro noPoint
  rw [realPoint?, noPoint] at read
  cases read

/-- The points that are read for a stroke are the tokens in front. -/
theorem exists_eq_append_of_frontPoints? {count : Nat} {tokens : List (Tree R)}
    {points : List (R × R)} (real : HasRealPoints tokens)
    (read : frontPoints? count tokens = some points) :
    points.length = count ∧ ∃ rest, tokens = points.map Tree.ofPoint ++ rest := by
  induction count generalizing tokens points with
  | zero =>
    rw [frontPoints?] at read
    rw [← Option.some.inj read]
    exact ⟨rfl, tokens, rfl⟩
  | succ count inductionHypothesis =>
    cases tokens with
    | nil => cases read
    | cons token others =>
      obtain ⟨first, isFirst, later, areLater, isAll⟩ :
          ∃ first, token.realPoint? = some first ∧ ∃ later,
            frontPoints? count others = some later ∧ first :: later = points := by
        simpa [frontPoints?, Option.bind_eq_some_iff] using read
      obtain ⟨lengthEq, rest, rfl⟩ := inductionHypothesis real.tail areLater
      obtain ⟨point, rfl⟩ := real token List.mem_cons_self (Tree.isPoint_of_realPoint? isFirst)
      rw [Tree.realPoint?_ofPoint] at isFirst
      obtain rfl := Option.some.inj isFirst
      rw [← isAll]
      exact ⟨congrArg Nat.succ lengthEq, rest, rfl⟩

theorem eq_of_stroke? {head : Tree R} {stroke : Stroke} (found : head.stroke? = some stroke) :
    head = .scalar (.keyword stroke.letter) := by
  obtain ⟨id, isId, _⟩ := Option.bind_eq_some_iff.mp found
  obtain ⟨_, rfl⟩ := Tree.isKeyword_iff.mp (Option.isSome_of_eq_some isId)
  rw [letter_of_stroke? found]

theorem yields_markOf (head : Tree R) {rest : List (Tree R)} (real : HasRealPoints rest) :
    Yields (head :: rest) (markOf head rest) := by
  rw [markOf]
  cases isStroke : head.stroke? with
  | none =>
    refine .unsupported fun stroke same => ?_
    rw [same, stroke?_letter] at isStroke
    cases isStroke
  | some stroke =>
    rw [eq_of_stroke? isStroke]
    dsimp only
    cases read : frontPoints? stroke.arity rest with
    | some points =>
      obtain ⟨count, others, rfl⟩ := exists_eq_append_of_frontPoints? real read
      exact .drawn count
    | none =>
      refine .incomplete ?_
      rintro ⟨enough, each⟩
      have readable : ∀ token ∈ rest.take stroke.arity, token.realPoint?.isSome := by
        intro token early
        obtain ⟨point, rfl⟩ := real token (List.mem_of_mem_take early) (each token early)
        rfl
      have isSome := isSome_frontPoints?_iff.mpr ⟨enough, readable⟩
      rw [read] at isSome
      cases isSome

/-! ### All segments of paths -/

theorem dropPathTag_suffix (tokens : List (Tree R)) : dropPathTag tokens <:+ tokens := by
  cases tokens with
  | nil => exact List.suffix_rfl
  | cons head rest =>
    rw [dropPathTag]
    split
    · exact List.suffix_cons head rest
    · exact List.suffix_rfl

/-- Each segment of a path has one mark, in order. -/
theorem yields_marks {tokens : List (Tree R)} (real : HasRealPoints tokens) :
    List.Forall₂ Yields (segments tokens) (marks tokens) := by
  have cut : CutByKeywords (dropPathTag tokens) (segments tokens) :=
    splitBy_eq_iff_cutByKeywords.mp rfl
  have each : ∀ part ∈ segments tokens, part ≠ [] ∧ HasRealPoints part := by
    refine fun part member => ⟨fun empty => cut.nonempty (empty ▸ member), fun token isToken => ?_⟩
    have left : token ∈ dropPathTag tokens := cut.joined ▸ List.mem_flatten_of_mem member isToken
    exact real token ((dropPathTag_suffix tokens).subset left)
  rw [marks]
  generalize segments tokens = parts at each
  induction parts with
  | nil => exact List.Forall₂.nil
  | cons part rest inductionHypothesis =>
    obtain ⟨⟨nonempty, partReal⟩, others⟩ := List.forall_mem_cons.mp each
    obtain ⟨head, items, rfl⟩ := List.exists_cons_of_ne_nil nonempty
    exact List.Forall₂.cons (yields_markOf head partReal.tail) (inductionHypothesis others)

/-- The marks of a path by itself. -/
def Tree.pathMarks : Tree R → List (Mark R)
  | .sequence _ tokens => marks tokens
  | _ => []

theorem Tree.pathCommands_eq (path : Tree R) :
    path.pathCommands = path.pathMarks.filterMap Mark.command? := by
  cases path <;> rfl

/-- Whether a value is a path as a walk shows it. -/
def Tree.IsShown (path : Tree R) : Prop :=
  ∃ tokens, path = .sequence .vector tokens ∧ HasRealPoints tokens

theorem Tree.isShown_of_mem_paths [Measure R] {start : Transform R} (tree : Tree R) {path : Tree R}
    (member : path ∈ tree.paths start) : path.IsShown := by
  obtain ⟨sighting, found, isPath⟩ := List.mem_filterMap.mp member
  cases sighting with
  | malformedMatrix _ => cases isPath
  | path tokens =>
    obtain ⟨_, _, _, _, placed⟩ := isPlacedPath_of_mem_walk tree _ _ found
    exact ⟨tokens, (Option.some.inj isPath).symm, fun _ isToken =>
      exists_ofPoint_of_mem_placeTokens placed isToken⟩

/-- Paths taken one by one have segments, and each of all these has one mark, in order. -/
theorem exists_parts {paths : List (Tree Float)} (each : ∀ path ∈ paths, path.IsShown) :
    ∃ parts, paths.mapM Tree.segments = .ok parts ∧
      List.Forall₂ Yields parts.flatten (paths.flatMap Tree.pathMarks) := by
  induction paths with
  | nil => exact ⟨[], rfl, List.Forall₂.nil⟩
  | cons path rest inductionHypothesis =>
    obtain ⟨⟨tokens, rfl, real⟩, others⟩ := List.forall_mem_cons.mp each
    obtain ⟨parts, read, yields⟩ := inductionHypothesis others
    refine ⟨segments tokens :: parts, ?_, List.rel_append (yields_marks real) yields⟩
    rw [List.mapM_cons, read]
    rfl

/-! ### Commands and notices -/

/-- Every mark is a command or a notice, and not both. -/
theorem length_commands_add_length_notices (marks : List (Mark R)) :
    (marks.filterMap Mark.command?).length + (marks.filterMap Mark.notice?).length =
      marks.length := by
  induction marks with
  | nil => rfl
  | cons mark rest inductionHypothesis =>
    cases mark with
    | drawn command =>
      show (rest.filterMap Mark.command?).length + 1 + (rest.filterMap Mark.notice?).length = _
      rw [Nat.add_right_comm, inductionHypothesis]
      rfl
    | passedOver notice => exact congrArg Nat.succ inductionHypothesis

/-- Whether a notice is that of a transform, not of a segment. -/
def Notice.isOfTransform : Notice R → Bool
  | .malformedMatrix _ => true
  | .unsupportedCommand _ | .incompleteSegment _ _ => false

theorem Yields.isOfTransform_eq_false {segment : List (Tree R)} {notice : Notice R}
    (yields : Yields segment (.passedOver notice)) : notice.isOfTransform = false := by
  cases yields <;> rfl

theorem isOfTransform_eq_false_of_mem {path : Tree R} (isShown : path.IsShown) {notice : Notice R}
    (member : notice ∈ path.pathMarks.filterMap Mark.notice?) : notice.isOfTransform = false := by
  obtain ⟨tokens, rfl, real⟩ := isShown
  obtain ⟨mark, isMark, isNotice⟩ := List.mem_filterMap.mp member
  obtain ⟨segment, _, yields⟩ := exists_mem_of_forall₂ (yields_marks real) isMark
  cases mark with
  | drawn command => cases isNotice
  | passedOver other =>
    rw [← Option.some.inj isNotice]
    exact yields.isOfTransform_eq_false

/-- The notices that drawing gives are those of segments, path by path, and those of transforms. -/
theorem filter_notices {sightings : List (Sighting R)}
    (each : ∀ path ∈ sightings.filterMap Sighting.path?, path.IsShown) :
    ((sightings.flatMap Sighting.marks).filterMap Mark.notice?).filter
        (!Notice.isOfTransform ·) =
      ((sightings.filterMap Sighting.path?).flatMap Tree.pathMarks).filterMap Mark.notice? ∧
    ((sightings.flatMap Sighting.marks).filterMap Mark.notice?).filter Notice.isOfTransform =
      sightings.filterMap Sighting.notice? := by
  induction sightings with
  | nil => exact ⟨rfl, rfl⟩
  | cons sighting rest inductionHypothesis =>
    cases sighting with
    | malformedMatrix found =>
      obtain ⟨ofSegments, ofTransforms⟩ := inductionHypothesis each
      exact ⟨ofSegments, congrArg (Notice.malformedMatrix found :: ·) ofTransforms⟩
    | path tokens =>
      obtain ⟨isShown, others⟩ := List.forall_mem_cons.mp each
      obtain ⟨ofSegments, ofTransforms⟩ := inductionHypothesis others
      have plain := fun notice => @isOfTransform_eq_false_of_mem _ _ isShown notice
      rw [List.flatMap_cons, List.filterMap_append, List.filter_append, List.filter_append,
        ofSegments, ofTransforms]
      have kept : ((marks tokens).filterMap Mark.notice?).filter (!Notice.isOfTransform ·) =
          (marks tokens).filterMap Mark.notice? :=
        List.filter_eq_self.mpr fun notice member => by rw [plain notice member]; rfl
      have left : ((marks tokens).filterMap Mark.notice?).filter Notice.isOfTransform = [] :=
        List.filter_eq_nil_iff.mpr fun notice member => by rw [plain notice member]; decide
      refine ⟨?_, congrArg (· ++ _) left⟩
      show List.filter _ (List.filterMap _ (marks tokens)) ++ _ =
        List.filterMap _ (marks tokens ++ _)
      rw [kept, List.filterMap_append]
      rfl

namespace Tree

variable [Measure R]

/-- The marks of all segments of a drawing, path by path. -/
def segmentMarks (tree : Tree R) : List (Mark R) := (tree.paths .identity).flatMap pathMarks

theorem commands_eq_filterMap {tree : Tree R} (tagged : tree.untagged? = none) :
    tree.commands = tree.segmentMarks.filterMap Mark.command? := by
  rw [commands_eq_flatMap tagged, segmentMarks, List.filterMap_flatMap]
  exact List.flatMap_congr fun path _ => path.pathCommands_eq

/-- The notices that drawing gives are those of all segments and those of a walk. -/
theorem filter_notices_draw {tree : Tree R} (tagged : tree.untagged? = none) :
    (tree.draw.events.filterMap Mark.notice?).filter (!Notice.isOfTransform ·) =
        tree.segmentMarks.filterMap Mark.notice? ∧
      (tree.draw.events.filterMap Mark.notice?).filter Notice.isOfTransform =
        tree.notices .identity := by
  have events : tree.draw.events = (tree.walk .identity).events.flatMap Sighting.marks :=
    congrArg Trail.events (draw_of_untagged? tagged)
  rw [events]
  exact filter_notices fun path => tree.isShown_of_mem_paths

end Tree

/-! ### Records -/

/-- Whether the message of a record begins with a text. -/
def Record.begins (text : String) (record : Record) : Bool :=
  text.toList.isPrefixOf record.message.toList

/-- What the records of segments begin with. -/
def ignoring : String := "Ignoring"

/-- What the records of transforms begin with. -/
def skippingTransform : String := "Skipping :transform"

theorem begins_noticeRecord (notice : Notice Float) :
    (Session.noticeRecord notice).begins ignoring = !notice.isOfTransform ∧
      (Session.noticeRecord notice).begins skippingTransform = notice.isOfTransform := by
  rw [Record.begins, Record.begins, Session.noticeRecord]
  cases notice with
  | malformedMatrix found =>
    have message : (Notice.malformedMatrix found).message.toList =
        "Skipping :transform with malformed matrix: ".toList ++
          (Tree.sequence .plain found).inspect.toList := String.toList_append
    rw [message]
    generalize (Tree.sequence .plain found).inspect.toList = shown
    exact ⟨rfl, rfl⟩
  | unsupportedCommand head =>
    have message : (Notice.unsupportedCommand head).message.toList =
        "Ignoring unsupported path command ".toList ++ head.inspect.toList := String.toList_append
    rw [message]
    generalize head.inspect.toList = shown
    exact ⟨rfl, rfl⟩
  | incompleteSegment head rest =>
    have message : (Notice.incompleteSegment head rest).message =
        "Ignoring " ++ (head.inspect ++ (" segment with points " ++
          (Tree.sequence .plain rest).inspect)) := by
      show "Ignoring " ++ head.inspect ++ " segment with points " ++ _ = _
      rw [String.append_assoc, String.append_assoc]
    rw [message, String.toList_append]
    generalize (String.toList (_ ++ _)) = shown
    exact ⟨rfl, rfl⟩

theorem filter_begins (notices : List (Notice Float)) :
    (notices.map Session.noticeRecord).filter (Record.begins ignoring) =
        (notices.filter (!Notice.isOfTransform ·)).map Session.noticeRecord ∧
      (notices.map Session.noticeRecord).filter (Record.begins skippingTransform) =
        (notices.filter Notice.isOfTransform).map Session.noticeRecord := by
  have ofSegments : Record.begins ignoring ∘ Session.noticeRecord =
      fun notice => !notice.isOfTransform := funext fun notice => (begins_noticeRecord notice).1
  have ofTransforms : Record.begins skippingTransform ∘ Session.noticeRecord =
      Notice.isOfTransform := funext fun notice => (begins_noticeRecord notice).2
  rw [List.filter_map, List.filter_map, ofSegments, ofTransforms]
  exact ⟨rfl, rfl⟩

namespace Journal

theorem admits_log (journal : Journal) (time : String) (record : Record) (severity : Severity) :
    (journal.log time record).admits severity = journal.admits severity := by
  rw [log]
  split <;> rfl

/-- Messages that are serious enough are listed one after another. -/
theorem records_logAll {journal : Journal} (time : String) {records : List Record}
    (admitted : ∀ record ∈ records, journal.admits record.severity) :
    (journal.logAll time records).records = journal.records ++ records := by
  induction records generalizing journal with
  | nil => exact (List.append_nil _).symm
  | cons record rest inductionHypothesis =>
    have logged : (journal.log time record).records = journal.records ++ [record] := by
      rw [log, if_pos (admitted record List.mem_cons_self)]
    have others := @inductionHypothesis (journal.log time record) fun other member =>
      (admits_log journal time record other.severity).trans
        (admitted other (List.mem_cons_of_mem _ member))
    rw [logged, List.append_assoc] at others
    exact others

end Journal

/-! ### In a session -/

namespace Session

section Drawings

variable {session : Session} {drawing : Ref} {tree : Tree Float}
variable (isTree : session.store.tree drawing = .ok tree)

include isTree

theorem outcome_paths (matrix : Transform Float) :
    (paths matrix drawing session).1 =
      (tree.walk matrix).outcome.map fun _ => tree.paths matrix := by
  have ends : (treeOf drawing session).1 = .ok tree := isTree
  let trail := (tree.walk matrix).expand fun sighting => sighting.notice?.toList
  rw [paths, Stateful.bind_of_ok _ ends]
  exact congrArg Prod.fst (follow_bind_pure trail (fun _ => tree.paths matrix) session)

variable (admits : session.journal.admits .debug)

include admits

theorem records_notices (notices : Tree Float → List (Notice Float)) :
    (session.journal.logAll session.time (session.noticesOn drawing notices)).records =
      session.journal.records ++ (notices tree).map noticeRecord := by
  rw [noticesOn, isTree]
  refine Journal.records_logAll session.time fun record member => ?_
  obtain ⟨notice, _, rfl⟩ := List.mem_map.mp member
  exact admits

theorem records_drawOn (canvas : Canvas Float) :
    (drawOn canvas drawing session).2.journal.records =
      session.journal.records ++ (tree.draw.events.filterMap Mark.notice?).map noticeRecord := by
  rw [journal_drawOn]
  exact records_notices isTree admits _

theorem records_drawingText :
    (drawingText drawing session).2.journal.records =
      session.journal.records ++ (tree.notices .identity).map noticeRecord := by
  have told : tree.text.events = tree.notices .identity :=
    (tree.retells_drawingText .identity).notices
  rw [journal_drawingText, ← told]
  exact records_notices isTree admits _

end Drawings

/-- What a session has to show for a drawing that was drawn: the commands on the canvas, and in the
journal the records of all that was passed over. -/
structure AccountsFor (session : Session) (canvas : Canvas Float) (drawing : Ref)
    (tree : Tree Float) (drawn : Canvas Float) (records : List Record) : Prop where
  onCanvas : (drawOn canvas drawing session).1 = .ok (canvas ++ drawn)
  inJournal : (drawOn canvas drawing session).2.journal.records =
    session.journal.records ++ records
  /-- Each segment of a path has one command or one record, in order. -/
  ofSegments : ∃ shown parts marks, (paths .identity drawing session).1 = .ok shown ∧
    shown.mapM Tree.segments = .ok parts ∧ List.Forall₂ Yields parts.flatten marks ∧
      drawn = marks.filterMap Mark.command? ∧
      records.filter (Record.begins ignoring) = (marks.filterMap Mark.notice?).map noticeRecord ∧
      drawn.length + (records.filter (Record.begins ignoring)).length = parts.flatten.length
  /-- Each transform without a matrix that is reached has one record, in order. -/
  ofTransforms : ∃ positions notices, tree.Reports positions notices ∧
    records.filter (Record.begins skippingTransform) = notices.map noticeRecord
  /-- Writing the drawing as text leaves the records of transforms, and no others. -/
  asText : (drawingText drawing session).2.journal.records =
    session.journal.records ++ records.filter (Record.begins skippingTransform)

/-- Nothing is dropped without a trace, if messages of the least severity are logged. A drawing with
its tag whose numbers can be computed with is drawn in such a way that the session can account for
every segment and every transform. -/
theorem exists_accountsFor (session : Session) (canvas : Canvas Float) (drawing : Ref)
    (tree : Tree Float) (admits : session.journal.admits .debug)
    (isTree : session.store.tree drawing = .ok tree) (tagged : tree.untagged? = none)
    (fits : tree.Fits) :
    ∃ drawn records, session.AccountsFor canvas drawing tree drawn records := by
  obtain ⟨_, walked⟩ := (tree.endsIff_walk .identity).ends fits
  obtain ⟨parts, areParts, yields⟩ := exists_parts fun path => tree.isShown_of_mem_paths
  obtain ⟨positions, reports⟩ := tree.exists_reports_of_walk .identity walked
  have commands := Tree.commands_eq_filterMap tagged
  obtain ⟨ofSegments, ofTransforms⟩ := Tree.filter_notices_draw tagged
  obtain ⟨ignored, skipped⟩ := filter_begins (tree.draw.events.filterMap Mark.notice?)
  rw [ofSegments] at ignored
  rw [ofTransforms] at skipped
  refine ⟨tree.commands, _, ?_, records_drawOn isTree admits canvas,
    ⟨tree.paths .identity, parts, tree.segmentMarks, ?_, areParts, yields, commands, ignored, ?_⟩,
    ⟨positions, _, reports, skipped⟩, ?_⟩
  · rw [outcome_drawOn isTree, Tree.draw_of_untagged? tagged, Trail.outcome_expand, walked]
    rfl
  · rw [outcome_paths isTree, walked]
    rfl
  · rw [ignored, commands, List.length_map, length_commands_add_length_notices, yields.length_eq]
    rfl
  · rw [records_drawingText isTree admits, skipped]

/-- A group of a transform by two numbers and of a path, in which a move and a close are drawn and
two segments between them are not. -/
def oneOfEach : Session where
  store := {
    objects := #[.sequence .vector [.scalar (.integer 3), .scalar (.integer 4)],
      .sequence .vector [.scalar (.integer 1), .scalar (.integer 2)],
      .sequence .vector [.scalar (.keyword "path"), .scalar (.keyword "M"), .object 0,
        .scalar (.keyword "Q"), .scalar (.keyword "L"), .scalar (.integer 5),
        .scalar (.keyword "Z")],
      .sequence .vector [.scalar (.keyword "transform"), .object 1, .object 2],
      .sequence .vector [.scalar (.keyword "style"), .scalar .nil, .object 3, .object 2]] }
  journal := { level := Severity.debug.level }

/-- The path of `oneOfEach`. -/
def twoOfFour : Tree Float :=
  .pathNode [.scalar (.keyword "M"),
    .sequence .vector [.scalar (.integer 3), .scalar (.integer 4)], .scalar (.keyword "Q"),
    .scalar (.keyword "L"), .scalar (.integer 5), .scalar (.keyword "Z")]

theorem exists_accountsFor_oneOfEach :
    let malformed := .transformNode (.sequence .vector [.scalar (.integer 1), .scalar (.integer 2)])
      [twoOfFour]
    let tree := .styleNode (.scalar .nil) [malformed, twoOfFour]
    oneOfEach.journal.admits .debug ∧ oneOfEach.store.tree (.object 4) = .ok tree ∧
      tree.untagged? = none ∧ tree.Fits ∧
      ∃ drawn records, oneOfEach.AccountsFor [] (.object 4) tree drawn records ∧
        drawn.map Command.stroke = [.move, .close] ∧
        records.map Record.message =
          ["Skipping :transform with malformed matrix: [Vector([1, 2])]",
            "Ignoring unsupported path command Keyword('Q')",
            "Ignoring Keyword('L') segment with points [5]"] := by
  intro malformed tree
  have walked : (tree.walk .identity).outcome = .ok () := by decide +kernel
  have fits : tree.Fits := (tree.endsIff_walk .identity).holds walked
  have onEmpty : (drawOn [] (.object 4) oneOfEach).1.map (List.map Command.stroke) =
      .ok [.move, .close] := by decide +kernel
  have messages : (drawOn [] (.object 4) oneOfEach).2.journal.records.map Record.message =
      ["Skipping :transform with malformed matrix: [Vector([1, 2])]",
        "Ignoring unsupported path command Keyword('Q')",
        "Ignoring Keyword('L') segment with points [5]"] := by decide +kernel
  obtain ⟨drawn, records, accounts⟩ := exists_accountsFor oneOfEach [] (.object 4) tree
    (by decide) rfl rfl fits
  rw [accounts.onCanvas] at onEmpty
  rw [accounts.inJournal] at messages
  exact ⟨by decide, rfl, rfl, fits, drawn, records, accounts, Except.ok.inj onEmpty, messages⟩

end Session

end SketchForm
