/-
This file words the report of a crash.

An evaluator that fails for a reason of its own, and not with a message meant for the
user, is reported by the kind of the failure and its message. The message of a missing
key is the key, and is shown in quotes. The report is a list of lines; lines that begin
with two spaces would describe places in a program, and none of them is kept.
-/
import SketchForm.Text.Quoted

namespace SketchForm

/-- The kinds of failure whose message is a key. -/
def keyKinds : List String := ["KeyError"]

/-- The kinds of failure that describe a text to be read, and say so if they have no message. -/
def readingKinds : List String := ["SyntaxError", "IndentationError", "TabError"]

/-- The last line of a report: the kind of failure, and the message if there is one. -/
def crashLine (kind : String) (message? : Option String) : String :=
  if keyKinds.contains kind then
    match message? with
    | some key => kind ++ ": " ++ Text.quoted key
    | none => kind
  else
    let message := message?.getD ""
    if message != "" then kind ++ ": " ++ message
    else if readingKinds.contains kind then kind ++ ": <no detail available>"
    else kind

/-- The lines of a text that do not begin with two spaces. -/
def withoutPlaces (lines : List (List Char)) : List (List Char) :=
  lines.filter fun line => !([' ', ' '].isPrefixOf line)

/-- The lines of a text. -/
def linesOf (text : List Char) : List (List Char) := text.splitOn '\n'

/-- The report of a crash. -/
def crashReport (kind : String) (message? : Option String) : String :=
  let line := linesOf (crashLine kind message?).toList
  "Traceback (most recent call last):\n"
    ++ String.ofList (List.intercalate ['\n'] (withoutPlaces line)) ++ "\n"

end SketchForm
