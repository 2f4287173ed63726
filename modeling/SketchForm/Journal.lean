/-
This file logs messages.

A message is logged if it is at least as serious as the level in force, and then it is
written to the streams that the journal is attached to, once for every attachment. The
journal is set up any number of times: every time the level is set anew, but only the
first time is it attached to the stream that comes with it, for which it keeps a flag.
-/
import SketchForm.Settings

namespace SketchForm

/-- A message that was logged. -/
structure Record where
  severity : Severity
  /-- The part of the library that logged it. -/
  source : String
  message : String
  deriving DecidableEq, Repr

/-- A record as one line of a stream, with the time at which it was written. -/
def Record.line (time : String) (record : Record) : String :=
  " | ".intercalate [time, record.severity.name, record.source, record.message] ++ "\n"

/-- A level as it is asked for: by number, by name, or as the environment says. -/
inductive LevelChoice where
  | asSet
  | number (level : Int)
  | named (name : String)
  deriving DecidableEq, Repr

/-- The level asked for. -/
def LevelChoice.level (settings : Settings) : LevelChoice → Except Failure Int
  | .asSet => .ok settings.logLevel
  | .number level => .ok level
  | .named name =>
    match levelNamed? name with
    | some level => .ok level
    | none => .error .unknownLevel

/-- The state of logging. -/
structure Journal where
  /-- The level that was set, or zero. -/
  level : Int := 0
  /-- Whether logging was set up. -/
  isSetUp : Bool := false
  /-- The numbers of the streams that records are written to, one for every attachment. -/
  attached : List Nat := []
  /-- What was written to each of the streams offered so far. -/
  streams : List String := []
  /-- The messages logged so far. -/
  records : List Record := []
  deriving DecidableEq, Repr

namespace Journal

/-- The level in force: where none is set, that of warnings. -/
def levelInForce (journal : Journal) : Int :=
  if journal.level = 0 then Severity.warning.level else journal.level

/-- Whether messages of this severity are logged. -/
def admits (journal : Journal) (severity : Severity) : Bool :=
  journal.levelInForce ≤ severity.level

/-- The streams after a line went to all those that the journal is attached to. -/
def streamsWith (journal : Journal) (line : String) : List String :=
  journal.attached.foldl (fun streams place => streams.modify place (· ++ line)) journal.streams

/-- Logs a message, if it is serious enough. -/
def log (journal : Journal) (time : String) (record : Record) : Journal :=
  if journal.admits record.severity then
    { journal with
      records := journal.records ++ [record]
      streams := journal.streamsWith (record.line time) }
  else journal

/-- Logs messages one after another. -/
def logAll (journal : Journal) (time : String) (records : List Record) : Journal :=
  records.foldl (fun journal record => journal.log time record) journal

/-- Attaches the journal to a stream, unless it was set up before. -/
def attachFirst (journal : Journal) (place : Nat) : Journal :=
  if journal.isSetUp then journal
  else { journal with isSetUp := true, attached := journal.attached ++ [place] }

/-- Sets logging up with a new stream: sets the level, and attaches the journal to the stream if
this is the first time. If there is no such level, nothing changes but that the stream was
offered. -/
def setUp (journal : Journal) (level : Except Failure Int) : Journal :=
  let offered := { journal with streams := journal.streams ++ [""] }
  match level with
  | .ok level => attachFirst { offered with level } journal.streams.length
  | .error _ => offered

/-- How many times the journal is attached to a stream. -/
def attachments (journal : Journal) : Nat := journal.attached.length

theorem setUp_ok_again {journal : Journal} (isSetUp : journal.isSetUp = true) (level : Int) :
    journal.setUp (.ok level) = { journal with level, streams := journal.streams ++ [""] } :=
  if_pos isSetUp

theorem setUp_ok_first {journal : Journal} (notSetUp : journal.isSetUp = false) (level : Int) :
    journal.setUp (.ok level) =
      { journal with
        level
        isSetUp := true
        attached := journal.attached ++ [journal.streams.length]
        streams := journal.streams ++ [""] } :=
  if_neg (ne_true_of_eq_false notSetUp)

end Journal

end SketchForm
