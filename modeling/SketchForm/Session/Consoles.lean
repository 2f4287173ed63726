/-
This file holds what happens at a console.

A form is evaluated and the result printed, and the text goes to the user. An evaluation
that failed leaves no text but a message in the log: the failure's own message, or the
report of a crash. Printing comes after evaluation and is no part of it, so nothing that
happens there is taken for a failure of the evaluator.

Beside that a console has channels, on which commands send values: to the log, to the
user, or to the log as errors. And a command has its arguments grouped by the keywords
among them.
-/
import SketchForm.Session
import SketchForm.Console.Arguments
import SketchForm.Console.Report

namespace SketchForm

namespace Session

/-- The part of the library that logs for consoles. -/
def consoleSource : String := "glisp.printer.console"

/-- Logs an error. -/
def logError (message : String) : Action Unit := log .error consoleSource message

/-- Makes a console; unless it is said how it prints texts, the settings say it. -/
def makeConsole (isReadable? : Option Bool) (evaluate : Ref → Evaluation Ref) :
    Action Console := do
  pure ⟨isReadable?.getD (← get).settings.isReadable, evaluate⟩

/-- Keeps a console under a name. -/
def keepConsole (name : String) (console : Console) : Action Unit :=
  modify fun session => { session with consoles := session.consoles.insert name console }

/-- The console of a name. -/
def consoleNamed (name : String) : Action Console := do
  match (← get).consoles.get? name with
  | some console => pure console
  | none => throw .keyMissing

/-- Evaluates a form and prints the result, and gives the text if there is one. -/
def respond (console : Console) (form : Ref) (isWritten : Bool) : Action (Option String) := do
  match console.evaluate form with
  | .value result =>
    let text ← print console.isReadable result
    if isWritten then write (text ++ "\n")
    pure (some text)
  | .blank => pure none
  | .failed message => do
    logError message
    pure none
  | .crashed kind message? => do
    logError (crashReport kind message?)
    pure none
  | .stopped kind => throw (.stopped kind)

/-! ### Channels -/

/-- The ways in which a command can show values. -/
inductive Channel where
  /-- Into the log. -/
  | log
  /-- To the user, as a result. -/
  | result
  /-- Into the log, as an error. -/
  | error
  /-- To the user, as if the command had been typed. -/
  | command
  /-- Wipes what the user sees. -/
  | clear
  deriving DecidableEq, Repr

/-- The control text that clears a terminal and goes to its first place. -/
def clearText : String := "\x1b[2J\x1b[H"

/-- Values on one line. -/
def lineOf (values : List (Tree Float)) : String := " ".intercalate (values.map Tree.display)

/-- Sends values on a channel. A command is one text, and clearing takes no values. -/
def send (channel : Channel) (refs : List Ref) : Action Unit := do
  let values ← treesOf refs
  match channel with
  | .log => log .info consoleSource (lineOf values)
  | .result => write (lineOf values ++ "\n")
  | .error => logError (lineOf values)
  | .command =>
    match values with
    | [.scalar (.text command)] => write (command ++ "\n")
    | _ => throw .wrongArguments
  | .clear => if values.isEmpty then write clearText else throw .wrongArguments

/-! ### Arguments of commands -/

/-- Groups the arguments of a command by name. -/
def groupArguments (arguments : List Ref) : Action (List (String × Ref)) := do
  let (groups, store) ← settle ((← get).store.groupArguments arguments)
  modify fun session => { session with store }
  pure groups

end Session

end SketchForm
