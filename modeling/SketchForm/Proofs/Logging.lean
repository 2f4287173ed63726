/-
This file proves that a session is attached to one stream at most, and that this stream
holds what is due in it.

What happens to logging in a session is a history: a stream is offered with a level, or
with the reason why there is none, and messages come in. The history alone says what the
journal has to be. Its level is the last one that was set. It is attached to the stream
that came with the first level that was set, and to no other, and to none before that. In
this stream are the lines of the messages that came after it and were serious enough for
the level in force when they came, each of them once and in order. All other streams are
empty.

That a journal is as its history says is kept by every entry, hence by every request made
of a session, since a request does nothing to the journal but enter what it has to say.
-/
import SketchForm.Proofs.Steps
import SketchForm.Session.Consoles
import SketchForm.Session.Drawings
import Mathlib.Data.List.Basic
import Mathlib.Data.List.Induction

namespace SketchForm

/-! ### What a history asks for -/

namespace Journal

/-- Something that happens to a journal. -/
inductive Entry where
  /-- A stream is offered with a level, or with the reason why there is none. -/
  | offer (level : Except Failure Int)
  /-- A message comes in at some time. -/
  | message (time : String) (record : Record)

/-- The journal after an entry. -/
def enter (journal : Journal) : Entry → Journal
  | .offer level => journal.setUp level
  | .message time record => journal.log time record

/-- The journal but for the list of its records. -/
def unlisted (journal : Journal) : Journal := { journal with records := [] }

variable (history : List Entry)

/-- What was offered, stream by stream. -/
def offers : List (Except Failure Int) :=
  history.filterMap fun
    | .offer level => some level
    | .message _ _ => none

/-- The level set last, or zero. -/
def lastLevel : Int := (((offers history).filterMap Except.toOption).getLast?).getD 0

/-- The level in force after what happened. -/
def forceAfter : Int :=
  if lastLevel history = 0 then Severity.warning.level else lastLevel history

/-- The number of the stream that came with the first level that was set. -/
def firstStream? : Option Nat := (offers history).findIdx? Except.isOk

/-- The line that an entry is due after what happened before. -/
def dueLine? : Entry → Option String
  | .offer _ => none
  | .message time record =>
    if (firstStream? history).isSome ∧ forceAfter history ≤ record.severity.level then
      some (record.line time)
    else none

/-- The lines that are due, in order. -/
def dueLines : List String :=
  history.zipIdx.filterMap fun (entry, place) => dueLine? (history.take place) entry

/-- So many streams, of which one, if any, has a text and the others are empty. -/
def streamsOf (count : Nat) (place? : Option Nat) (text : String) : List String :=
  (List.range count).map fun place => if place? = some place then text else ""

/-- The journal is as its history says. -/
structure Reflects (journal : Journal) (history : List Entry) : Prop where
  level : journal.level = lastLevel history
  isSetUp : journal.isSetUp = (firstStream? history).isSome
  attached : journal.attached = (firstStream? history).toList
  streams : journal.streams =
    streamsOf (offers history).length (firstStream? history) (String.join (dueLines history))

/-! ### One more entry -/

section

variable {history} (level : Int) (offer : Except Failure Int) (failure : Failure)
variable (time : String) (record : Record)

@[simp] theorem offers_offer :
    offers (history ++ [.offer offer]) = offers history ++ [offer] := by
  simp [offers]

@[simp] theorem offers_message :
    offers (history ++ [.message time record]) = offers history := by
  simp [offers]

theorem lastLevel_ok : lastLevel (history ++ [.offer (.ok level)]) = level := by
  have granted : [(.ok level : Except Failure Int)].filterMap Except.toOption = [level] := rfl
  rw [lastLevel, offers_offer, List.filterMap_append, granted, List.getLast?_concat]
  rfl

theorem lastLevel_error : lastLevel (history ++ [.offer (.error failure)]) = lastLevel history := by
  have granted : [(.error failure : Except Failure Int)].filterMap Except.toOption = [] := rfl
  rw [lastLevel, offers_offer, List.filterMap_append, granted, List.append_nil, lastLevel]

theorem lastLevel_message :
    lastLevel (history ++ [.message time record]) = lastLevel history := by
  rw [lastLevel, offers_message, lastLevel]

theorem firstStream?_offer :
    firstStream? (history ++ [.offer offer]) =
      (firstStream? history).or (if offer.isOk then some (offers history).length else none) := by
  rw [firstStream?, offers_offer, List.findIdx?_append, ← firstStream?, List.findIdx?_singleton]
  cases offer.isOk <;> simp

theorem firstStream?_message :
    firstStream? (history ++ [.message time record]) = firstStream? history := by
  rw [firstStream?, offers_message, firstStream?]

theorem firstStream?_lt {place : Nat} (isFirst : firstStream? history = some place) :
    place < (offers history).length :=
  (List.findIdx?_eq_some_iff_getElem.mp isFirst).1

theorem dueLines_append (entry : Entry) :
    dueLines (history ++ [entry]) = dueLines history ++ (dueLine? history entry).toList := by
  have before : ∀ pair ∈ history.zipIdx,
      dueLine? ((history ++ [entry]).take pair.2) pair.1 =
        dueLine? (history.take pair.2) pair.1 := by
    rintro ⟨other, place⟩ member
    have within : place ≤ history.length := by
      have := (List.mem_zipIdx member).2.1
      omega
    rw [List.take_append_of_le_length within]
  rw [dueLines, List.zipIdx_append, List.filterMap_append, List.filterMap_congr before, dueLines]
  cases due : dueLine? history entry <;> simp [due]

theorem dueLines_offer : dueLines (history ++ [.offer offer]) = dueLines history :=
  (dueLines_append _).trans (List.append_nil _)

/-- Before a level was set no line is due. -/
theorem dueLines_eq_nil (notSet : firstStream? history = none) : dueLines history = [] := by
  induction history using List.reverseRecOn with
  | nil => rfl
  | append_singleton earlier entry inductionHypothesis =>
    cases entry with
    | offer offer =>
      rw [firstStream?_offer] at notSet
      rw [dueLines_offer]
      exact inductionHypothesis (Option.or_eq_none_iff.mp notSet).1
    | message time record =>
      rw [firstStream?_message] at notSet
      rw [dueLines_append, inductionHypothesis notSet]
      simp [dueLine?, notSet]

end

/-! ### The streams -/

/-- A stream offered later is without the text. -/
theorem streamsOf_succ (count : Nat) {place? : Option Nat} {text : String}
    (empty : place? = some count → text = "") :
    streamsOf (count + 1) place? text = streamsOf count place? text ++ [""] := by
  rw [streamsOf, List.range_succ, List.map_append, List.map_singleton]
  split
  next isLast => rw [empty isLast]; rfl
  next => rfl

/-- Where there is no text it does not matter which stream has it. -/
theorem streamsOf_empty (count : Nat) (place? other? : Option Nat) :
    streamsOf count place? "" = streamsOf count other? "" := by
  simp [streamsOf]

theorem modify_streamsOf (count place : Nat) (text line : String) :
    (streamsOf count (some place) text).modify place (· ++ line) =
      streamsOf count (some place) (text ++ line) := by
  refine List.ext_getElem (by simp [streamsOf]) fun index _ _ => ?_
  simp only [streamsOf, List.getElem_modify, List.getElem_map, List.getElem_range,
    Option.some.injEq]
  split <;> rfl

/-! ### What every entry keeps -/

section

variable {history} {journal : Journal}

/-- A new stream is empty, whether it is the first with a level or not. -/
theorem Reflects.offered (reflects : journal.Reflects history) (offer : Except Failure Int) :
    journal.streams ++ [""] =
      streamsOf (offers (history ++ [.offer offer])).length
        (firstStream? (history ++ [.offer offer]))
        (String.join (dueLines (history ++ [.offer offer]))) := by
  rw [reflects.streams, offers_offer, dueLines_offer, firstStream?_offer, List.length_append,
    List.length_singleton]
  cases first : firstStream? history with
  | some place =>
    have earlier : place ≠ (offers history).length := Nat.ne_of_lt (firstStream?_lt first)
    exact (streamsOf_succ _ fun isLast => absurd (Option.some.inj isLast) earlier).symm
  | none =>
    have empty : String.join (dueLines history) = "" := by
      rw [dueLines_eq_nil first]
      rfl
    rw [empty, ← streamsOf_succ _ fun _ => rfl]
    exact streamsOf_empty _ _ _

/-- Setting a journal up attaches it to the stream offered if no level was set before. -/
theorem Reflects.setUp (reflects : journal.Reflects history) (offer : Except Failure Int) :
    (journal.setUp offer).Reflects (history ++ [.offer offer]) := by
  have streams := reflects.offered offer
  cases offer with
  | error failure =>
    have first : firstStream? (history ++ [.offer (.error failure)]) = firstStream? history :=
      (firstStream?_offer _).trans Option.or_none
    refine ⟨?_, ?_, ?_, streams⟩
    · rw [lastLevel_error]
      exact reflects.level
    · rw [first]
      exact reflects.isSetUp
    · rw [first]
      exact reflects.attached
  | ok level =>
    have last : lastLevel (history ++ [.offer (.ok level)]) = level := lastLevel_ok level
    have first : firstStream? (history ++ [.offer (.ok level)]) =
        (firstStream? history).or (some (offers history).length) := firstStream?_offer _
    have count : journal.streams.length = (offers history).length := by
      rw [reflects.streams]
      simp [streamsOf]
    have isSetUp := reflects.isSetUp
    have attached := reflects.attached
    cases before : firstStream? history with
    | some place =>
      rw [before] at first isSetUp attached
      rw [setUp_ok_again isSetUp]
      exact ⟨last.symm, first ▸ isSetUp, first ▸ attached, streams⟩
    | none =>
      rw [before] at first isSetUp attached
      rw [setUp_ok_first isSetUp]
      refine ⟨last.symm, first ▸ rfl, ?_, streams⟩
      rw [first, attached, count]
      rfl

/-- A line that is serious enough goes to the one stream, if there is one. -/
theorem Reflects.streamsWith (reflects : journal.Reflects history) (time : String)
    (record : Record) (serious : forceAfter history ≤ record.severity.level) :
    journal.streamsWith (record.line time) =
      streamsOf (offers history).length (firstStream? history)
        (String.join (dueLines (history ++ [.message time record]))) := by
  rw [Journal.streamsWith, reflects.attached, reflects.streams, dueLines_append]
  cases first : firstStream? history with
  | some place =>
    have due : dueLine? history (.message time record) = some (record.line time) :=
      if_pos ⟨first ▸ rfl, serious⟩
    rw [due, Option.toList_some, Option.toList_some, List.foldl_cons, List.foldl_nil,
      modify_streamsOf, String.join, String.join, List.foldl_append, List.foldl_cons,
      List.foldl_nil]
  | none =>
    have notDue : dueLine? history (.message time record) = none := by
      simp [dueLine?, first]
    rw [notDue, Option.toList_none, Option.toList_none, List.foldl_nil, List.append_nil]

/-- A message is written to the one stream if it is due there, and nowhere if it is not. -/
theorem Reflects.log (reflects : journal.Reflects history) (time : String) (record : Record) :
    (journal.log time record).Reflects (history ++ [.message time record]) := by
  have force : journal.levelInForce = forceAfter history := by
    rw [levelInForce, reflects.level, forceAfter]
  have admitted : journal.admits record.severity = true ↔
      forceAfter history ≤ record.severity.level := by
    rw [admits, force, decide_eq_true_iff]
  have last : lastLevel (history ++ [.message time record]) = lastLevel history :=
    lastLevel_message time record
  have first : firstStream? (history ++ [.message time record]) = firstStream? history :=
    firstStream?_message time record
  rw [Journal.log]
  split
  next serious =>
    refine ⟨last ▸ reflects.level, first ▸ reflects.isSetUp, first ▸ reflects.attached, ?_⟩
    rw [offers_message, first]
    exact reflects.streamsWith time record (admitted.mp serious)
  next notSerious =>
    have notDue : dueLine? history (.message time record) = none :=
      if_neg fun due => notSerious (admitted.mpr due.2)
    refine ⟨last ▸ reflects.level, first ▸ reflects.isSetUp, first ▸ reflects.attached, ?_⟩
    rw [offers_message, first, dueLines_append, notDue, Option.toList_none, List.append_nil]
    exact reflects.streams

theorem Reflects.enter (reflects : journal.Reflects history) (entry : Entry) :
    (journal.enter entry).Reflects (history ++ [entry]) := by
  cases entry with
  | offer level => exact reflects.setUp level
  | message time record => exact reflects.log time record

theorem Reflects.enterAll (reflects : journal.Reflects history) (entries : List Entry) :
    (entries.foldl Journal.enter journal).Reflects (history ++ entries) := by
  induction entries generalizing journal history with
  | nil => rwa [List.append_nil]
  | cons entry rest inductionHypothesis =>
    rw [← List.singleton_append, ← List.append_assoc]
    exact inductionHypothesis (reflects.enter entry)

/-- The list of records is of no account. -/
theorem Reflects.of_unlisted_eq {other : Journal} (reflects : journal.Reflects history)
    (same : other.unlisted = journal.unlisted) : other.Reflects history := by
  rw [unlisted, unlisted, Journal.mk.injEq] at same
  obtain ⟨level, isSetUp, attached, streams, _⟩ := same
  exact ⟨level.trans reflects.level, isSetUp.trans reflects.isSetUp,
    attached.trans reflects.attached, streams.trans reflects.streams⟩

/-- A journal that was never set up is as an empty history says. -/
theorem reflects_nil : Reflects {} [] := ⟨rfl, rfl, rfl, rfl⟩

/-- A journal is attached to one stream at most. -/
theorem Reflects.attachments_le (reflects : journal.Reflects history) :
    journal.attachments ≤ 1 := by
  rw [attachments, reflects.attached]
  exact Option.length_toList_le

end

end Journal

/-! ### What a request has to say -/

namespace Session

/-- Something that is asked of a session. -/
inductive Request where
  | setUpLogging (choice : LevelChoice)
  | changeSetting (name : String) (text? : Option String)
  | respond (console : Console) (form : Ref) (isWritten : Bool)
  | send (channel : Channel) (refs : List Ref)
  | drawingText (drawing : Ref)
  | paths (matrix : Transform Float) (drawing : Ref)
  | drawOn (canvas : Canvas Float) (drawing : Ref)
  | drawOnNamed (name : String) (drawing : Ref)
  /-- What leaves the journal alone, or only starts its list of records anew. -/
  | other (act : Session → Session)
      (quiet : ∀ session, (act session).journal.unlisted = session.journal.unlisted)

/-- The session after a request, whether it succeeds or fails. -/
def after (session : Session) : Request → Session
  | .setUpLogging choice => (setUpLogging choice session).2
  | .changeSetting name text? => (changeSetting name text? session).2
  | .respond console form isWritten => (respond console form isWritten session).2
  | .send channel refs => (send channel refs session).2
  | .drawingText drawing => (drawingText drawing session).2
  | .paths matrix drawing => (paths matrix drawing session).2
  | .drawOn canvas drawing => (drawOn canvas drawing session).2
  | .drawOnNamed name drawing => (drawOnNamed name drawing session).2
  | .other act _ => act session

/-- The session after one request after another. -/
def afterAll (session : Session) (requests : List Request) : Session :=
  requests.foldl after session

/-- The records of what is passed over in a drawing, if it can be read. -/
def noticesOn (session : Session) (drawing : Ref)
    (notices : Tree Float → List (Notice Float)) : List Record :=
  match session.store.tree drawing with
  | .ok tree => (notices tree).map noticeRecord
  | .error _ => []

/-- The records that a request has for the journal. -/
def recordsOf (session : Session) : Request → List Record
  | .respond console form _ =>
    match console.evaluate form with
    | .failed message => [⟨.error, consoleSource, message⟩]
    | .crashed kind message? => [⟨.error, consoleSource, crashReport kind message?⟩]
    | .value _ | .blank | .stopped _ => []
  | .send channel refs =>
    match channel, refs.mapM session.store.tree with
    | .log, .ok values => [⟨.info, consoleSource, lineOf values⟩]
    | .error, .ok values => [⟨.error, consoleSource, lineOf values⟩]
    | _, _ => []
  | .drawingText drawing => session.noticesOn drawing fun tree => tree.text.events
  | .paths matrix drawing => session.noticesOn drawing fun tree =>
      (tree.walk matrix).events.filterMap Sighting.notice?
  | .drawOn _ drawing | .drawOnNamed _ drawing => session.noticesOn drawing fun tree =>
      tree.draw.events.filterMap Mark.notice?
  | .setUpLogging _ | .changeSetting _ _ | .other _ _ => []

/-- What a request has for the journal: a stream, or messages at the time of the session. -/
def entriesOf (session : Session) : Request → List Journal.Entry
  | .setUpLogging choice => [.offer (choice.level session.settings)]
  | request => (session.recordsOf request).map (.message session.time)

/-- What all requests have for the journal, one after another. -/
def history (session : Session) : List Request → List Journal.Entry
  | [] => []
  | request :: rest => session.entriesOf request ++ (session.after request).history rest

/-! ### What a request does -/

variable (session : Session)

theorem setUpLogging_eq (choice : LevelChoice) :
    setUpLogging choice session =
      ((choice.level session.settings).map fun _ =>
          let journal := session.journal.setUp (choice.level session.settings)
          (journal.level, journal.attachments),
        { session with journal := session.journal.setUp (choice.level session.settings) }) := by
  show (discard (settle (choice.level session.settings)) >>= fun _ => _) _ = _
  cases choice.level session.settings <;> rfl

theorem journal_respond (console : Console) (form : Ref) (isWritten : Bool) :
    (respond console form isWritten session).2.journal =
      session.journal.logAll session.time
        (session.recordsOf (.respond console form isWritten)) := by
  rw [respond, recordsOf]
  cases console.evaluate form with
  | value result =>
    show ((print console.isReadable result >>= fun text => _) session).2.journal = session.journal
    cases printed : (print console.isReadable result session).1 with
    | error failure => rw [Stateful.bind_of_error _ printed]; rfl
    | ok text => rw [Stateful.bind_of_ok _ printed]; cases isWritten <;> rfl
  | blank => rfl
  | failed message => rfl
  | crashed kind message? => rfl
  | stopped kind => rfl

theorem treesOf_eq (refs : List Ref) :
    treesOf refs session = (refs.mapM session.store.tree, session) :=
  @Stateful.mapM_of_looks _ _ _ treeOf _ _ (fun _ => rfl) refs

theorem journal_send (channel : Channel) (refs : List Ref) :
    (send channel refs session).2.journal =
      session.journal.logAll session.time (session.recordsOf (.send channel refs)) := by
  have trees := treesOf_eq session refs
  rw [send]
  cases read : refs.mapM session.store.tree with
  | error failure =>
    rw [read] at trees
    rw [Stateful.bind_of_error _ (congrArg Prod.fst trees), trees]
    cases channel <;> simp only [recordsOf, read] <;> rfl
  | ok values =>
    rw [read] at trees
    rw [Stateful.bind_of_ok _ (congrArg Prod.fst trees), trees]
    cases channel with
    | log => simp only [recordsOf, read]; rfl
    | result => rfl
    | error => simp only [recordsOf, read]; rfl
    | command => dsimp only; split <;> rfl
    | clear => cases values <;> rfl

/-- Reading a drawing and then following what is passed over in it logs just that. -/
theorem journal_bind_treeOf {α : Type} (drawing : Ref) (next : Tree Float → Action α)
    (notices : Tree Float → List (Notice Float))
    (each : ∀ tree, (next tree session).2.journal =
      session.journal.logAll session.time ((notices tree).map noticeRecord)) :
    ((treeOf drawing >>= next) session).2.journal =
      session.journal.logAll session.time (session.noticesOn drawing notices) := by
  rw [noticesOn]
  cases isTree : session.store.tree drawing with
  | error failure =>
    have fails : (treeOf drawing session).1 = .error failure := isTree
    rw [Stateful.bind_of_error _ fails]
    rfl
  | ok tree =>
    have ends : (treeOf drawing session).1 = .ok tree := isTree
    rw [Stateful.bind_of_ok _ ends]
    exact each tree

theorem journal_follow {α β : Type} (trail : Trail (Notice Float) α) (view : α → β) :
    ((follow trail >>= fun value => pure (view value)) session).2.journal =
      session.journal.logAll session.time (trail.events.map noticeRecord) := by
  rw [Stateful.state_bind_pure, follow_eq]

theorem journal_drawingText (drawing : Ref) :
    (drawingText drawing session).2.journal =
      session.journal.logAll session.time (session.recordsOf (.drawingText drawing)) :=
  journal_bind_treeOf session drawing _ _ fun tree => by rw [follow_eq]

theorem journal_paths (matrix : Transform Float) (drawing : Ref) :
    (paths matrix drawing session).2.journal =
      session.journal.logAll session.time (session.recordsOf (.paths matrix drawing)) := by
  refine journal_bind_treeOf session drawing _ _ fun tree => ?_
  rw [List.filterMap_eq_flatMap_toList]
  exact journal_follow session _ fun _ => tree.paths matrix

theorem journal_drawOn (canvas : Canvas Float) (drawing : Ref) :
    (drawOn canvas drawing session).2.journal =
      session.journal.logAll session.time (session.recordsOf (.drawOn canvas drawing)) := by
  refine journal_bind_treeOf session drawing _ _ fun tree => ?_
  rw [List.filterMap_eq_flatMap_toList Mark.notice?]
  exact journal_follow session _ fun _ => canvas ++ tree.draw.events.filterMap Mark.command?

theorem journal_drawOnNamed (name : String) (drawing : Ref) :
    (drawOnNamed name drawing session).2.journal =
      session.journal.logAll session.time (session.recordsOf (.drawOnNamed name drawing)) := by
  refine journal_bind_treeOf session drawing _ _ fun tree => ?_
  rw [List.filterMap_eq_flatMap_toList]
  let canvas := (session.canvases.get? name).getD [] ++ tree.commands
  exact journal_follow { session with canvases := session.canvases.insert name canvas } _
    fun _ => canvas

theorem journal_changeSetting (name : String) (text? : Option String) :
    (changeSetting name text? session).2.journal = session.journal := by
  show ((settle (session.settings.change name text?) >>= fun _ => _) session).2.journal = _
  cases session.settings.change name text? <;> rfl

theorem logAll_eq_foldl (journal : Journal) (time : String) (records : List Record) :
    journal.logAll time records =
      (records.map (Journal.Entry.message time)).foldl Journal.enter journal := by
  rw [List.foldl_map]
  rfl

/-- A request does nothing to the journal but enter what it has for it. -/
theorem unlisted_journal_after (request : Request) :
    (session.after request).journal.unlisted =
      ((session.entriesOf request).foldl Journal.enter session.journal).unlisted := by
  have logged : ∀ {journal : Journal} {records : List Record},
      journal = session.journal.logAll session.time records → journal.unlisted =
        ((records.map (Journal.Entry.message session.time)).foldl Journal.enter
          session.journal).unlisted :=
    fun same => congrArg Journal.unlisted (same.trans (logAll_eq_foldl _ _ _))
  cases request with
  | setUpLogging choice => exact congrArg (·.2.journal.unlisted) (setUpLogging_eq session choice)
  | changeSetting name text? => exact logged (journal_changeSetting session name text?)
  | respond console form isWritten => exact logged (journal_respond session console form isWritten)
  | send channel refs => exact logged (journal_send session channel refs)
  | drawingText drawing => exact logged (journal_drawingText session drawing)
  | paths matrix drawing => exact logged (journal_paths session matrix drawing)
  | drawOn canvas drawing => exact logged (journal_drawOn session canvas drawing)
  | drawOnNamed name drawing => exact logged (journal_drawOnNamed session name drawing)
  | other act quiet => exact quiet session

/-- A journal that is as its history says stays so, whatever is asked of the session. -/
theorem reflects_afterAll {earlier : List Journal.Entry}
    (reflects : session.journal.Reflects earlier) (requests : List Request) :
    (session.afterAll requests).journal.Reflects (earlier ++ session.history requests) := by
  induction requests generalizing session earlier with
  | nil => rwa [history, List.append_nil]
  | cons request rest inductionHypothesis =>
    have entered := (reflects.enterAll (session.entriesOf request)).of_unlisted_eq
      (unlisted_journal_after session request)
    rw [history, ← List.append_assoc]
    exact inductionHypothesis (session.after request) entered

/-- Setting logging up fails only for a name that no level has. -/
theorem setUpLogging_eq_error_iff (choice : LevelChoice) (failure : Failure) :
    (setUpLogging choice session).1 = .error failure ↔
      failure = .unknownLevel ∧ ∃ name, choice = .named name ∧ levelNamed? name = none := by
  rw [setUpLogging_eq]
  cases choice with
  | asSet => simp [LevelChoice.level, Except.map]
  | number level => simp [LevelChoice.level, Except.map]
  | named name =>
    cases known : levelNamed? name <;> simp [LevelChoice.level, Except.map, known, eq_comm]

/-- A session whose logging was never set up is, whatever is asked of it, attached to one stream at
most, and its journal is as its history says. Setting logging up fails exactly for a name that no
level has, and then nothing changes but that a stream was offered, so that a later level that there
is still comes with the stream that the session is attached to. -/
theorem reflects_history {session now : Session} (fresh : session.journal = {})
    {requests : List Request} (reached : session.afterAll requests = now) :
    now.journal.Reflects (session.history requests) ∧ now.journal.attachments ≤ 1 ∧
      ∀ choice,
        (∀ failure, (setUpLogging choice now).1 = .error failure ↔
          failure = .unknownLevel ∧ ∃ name, choice = .named name ∧ levelNamed? name = none) ∧
        (∀ failure, (setUpLogging choice now).1 = .error failure →
          (setUpLogging choice now).2.journal =
            { now.journal with streams := now.journal.streams ++ [""] }) ∧
        ∀ result, (setUpLogging choice now).1 = .ok result → now.journal.attached = [] →
          (setUpLogging choice now).2.journal.attached = [now.journal.streams.length] := by
  have start : session.journal.Reflects [] := fresh ▸ Journal.reflects_nil
  have reflects : now.journal.Reflects (session.history requests) :=
    reached ▸ reflects_afterAll session start requests
  refine ⟨reflects, reflects.attachments_le, fun choice => ?_⟩
  refine ⟨setUpLogging_eq_error_iff now choice, ?_, ?_⟩
  · intro failure fails
    rw [setUpLogging_eq] at fails ⊢
    cases level : choice.level now.settings with
    | ok number => rw [level] at fails; cases fails
    | error other => rfl
  · intro result ends detached
    have notSetUp : now.journal.isSetUp = false := by
      have none := reflects.attached.symm.trans detached
      rw [reflects.isSetUp, Option.toList_eq_nil_iff.mp none]
      rfl
    rw [setUpLogging_eq] at ends ⊢
    cases level : choice.level now.settings with
    | error failure => rw [level] at ends; cases ends
    | ok number =>
      show (now.journal.setUp (.ok number)).attached = _
      rw [Journal.setUp_ok_first notSetUp, detached]
      rfl

/-- Requests of which the first asks for a level that there is not, and the third gives the level
of the stream that text goes to. -/
def threeStreams : List Request :=
  [.setUpLogging (.named "LOUD"), .changeSetting "GLISP_LOG_LEVEL" (some " info "),
    .setUpLogging .asSet, .send .log [.scalar (.text "known")], .setUpLogging (.number 0),
    .send .log [.scalar (.text "too late")], .other begin fun _ => rfl,
    .respond ⟨true, fun _ => .failed "broken"⟩ (.scalar .nil) true]

theorem reflects_history_threeStreams :
    let now := afterAll { time := "TIME" } threeStreams
    now.journal.attached = [1] ∧
      now.journal.streams = ["", "TIME | INFO | glisp.printer.console | known\n" ++
        "TIME | ERROR | glisp.printer.console | broken\n", ""] ∧
      (setUpLogging (.named "LOUD") now).1 = .error .unknownLevel := by
  intro now
  obtain ⟨reflects, _, offered⟩ := reflects_history rfl (rfl : _ = now)
  refine ⟨reflects.attached.trans ?_, reflects.streams.trans ?_, ?_⟩
  · decide +kernel
  · decide +kernel
  · exact ((offered _).1 _).mpr ⟨rfl, "LOUD", rfl, by decide⟩

end Session

end SketchForm
