/-
This file holds the state that a user works on.

A session has a store of values and names for some of them, canvases and consoles by
name, the settings of its environment, a journal, and the text written to the user. An
action reads and changes the session and gives a result or fails, and what it changed
before it failed stays changed.
-/
import SketchForm.Store.Edit
import SketchForm.Printer
import SketchForm.Journal
import SketchForm.Interner
import SketchForm.Path.Canvas
import SketchForm.Console.Evaluation

namespace SketchForm

/-- A console: how it prints texts, and how it evaluates forms. -/
structure Console where
  isReadable : Bool
  evaluate : Ref → Evaluation Ref

/-- The state that a user works on. -/
structure Session where
  store : Store := {}
  bindings : Directory Ref := {}
  canvases : Directory (Canvas Float) := {}
  consoles : Directory Console := {}
  settings : Settings := {}
  journal : Journal := {}
  interner : Interner := {}
  /-- What was written to the user. -/
  written : String := ""
  /-- What stands for the time in the streams of the journal. -/
  time : String := ""

/-- Something done in a session. -/
abbrev Action (α : Type) := ExceptT Failure (StateM Session) α

namespace Session

/-! ### Parts of the state -/

/-- Ends with a result that is known. -/
def settle {α : Type} (result : Except Failure α) : Action α := fun session => (result, session)

/-- Makes an object. -/
def allocate (object : Object) : Action Ref := fun session =>
  let made := session.store.allocate object
  (.ok made.1, { session with store := made.2 })

/-- The tree of a value. -/
def treeOf (ref : Ref) : Action (Tree Float) := do
  settle ((← get).store.tree ref)

/-- The trees of values. -/
def treesOf (refs : List Ref) : Action (List (Tree Float)) := refs.mapM treeOf

/-- Writes text to the user. -/
def write (text : String) : Action Unit :=
  modify fun session => { session with written := session.written ++ text }

/-- Logs a message. -/
def log (severity : Severity) (source message : String) : Action Unit :=
  modify fun session =>
    { session with journal := session.journal.log session.time ⟨severity, source, message⟩ }

/-- The session with nothing written and nothing in the list of records, so that what comes
next can be told from what was before. -/
def begin (session : Session) : Session :=
  { session with written := "", journal := { session.journal with records := [] } }

/-! ### Values and names -/

/-- Gives a value a name. -/
def assign (name : String) (ref : Ref) : Action Unit :=
  modify fun session => { session with bindings := session.bindings.insert name ref }

/-- The value of a name. -/
def valueOf (name : String) : Action Ref := do
  match (← get).bindings.get? name with
  | some ref => pure ref
  | none => throw .keyMissing

/-- Writes a value as source text. -/
def print (isReadable : Bool) (ref : Ref) : Action String := fun session =>
  let printed := session.store.print isReadable ref
  (printed.1, { session with store := printed.2 })

/-- Changes the store by an operation; where the operation fails, the store stays as it is. -/
def edit (change : Store → Except Failure Store) : Action Unit := do
  let store ← settle (change (← get).store)
  modify fun session => { session with store }

/-- Puts a value at a part of another; what was changed before a failure stays changed. -/
def setPart (node key value : Ref) : Action Unit := fun session =>
  let changed := session.store.setPart node key value
  (changed.1, { session with store := changed.2 })

/-- What the printer notes on a value. -/
def memo? (ref : Ref) : Action (Option Memo) := do
  pure ((← get).store.memo? ref)

/-- Changes the notes on a value. -/
def annotate (ref : Ref) (change : Memo → Memo) : Action Unit :=
  edit fun store => store.annotate ref change

/-! ### Settings and logging -/

/-- Sets or removes a text of the environment. -/
def changeSetting (name : String) (text? : Option String) : Action Unit := do
  let settings ← settle ((← get).settings.change name text?)
  modify fun session => { session with settings }

/-- Sets logging up with a new stream, and gives the level and the number of attachments. -/
def setUpLogging (choice : LevelChoice) : Action (Int × Nat) := do
  let level := choice.level (← get).settings
  modify fun session => { session with journal := session.journal.setUp level }
  discard (settle level)
  let journal := (← get).journal
  pure (journal.level, journal.attachments)

/-- The symbol of a name, always the same object. -/
def symbolFor (name : String) : Action Interned := fun session =>
  let found := session.interner.symbolFor name
  (.ok found.1, { session with interner := found.2 })

/-- The keyword of a name, always the same object for the same spelling. -/
def keywordFor (name : String) : Action Interned := fun session =>
  let found := session.interner.keywordFor name
  (.ok found.1, { session with interner := found.2 })

end Session

end SketchForm
