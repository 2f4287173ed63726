/-
This file reads settings from the environment.

The environment holds texts under names. A flag is on unless its text says that it is
off, and a log level is given by name; in both, blanks around the text and the case of
its letters do not matter. A setting that is missing, or a level that has no such name,
leaves the default.
-/
import SketchForm.Directory
import SketchForm.Severity
import SketchForm.Text.Blank
import SketchForm.Failure

namespace SketchForm

/-- The environment. -/
abbrev Settings := Directory String

namespace Settings

/-- The texts that turn a flag off. -/
def offTexts : List String := ["0", "false", "no", "off", ""]

/-- Whether the text of a flag turns it on. -/
def isOn (text : String) : Bool :=
  !offTexts.contains (String.ofList (Text.lowercase (Text.trim text.toList)))

/-- Whether a flag is on. -/
def flag (settings : Settings) (name : String) (default : Bool) : Bool :=
  match settings.get? name with
  | some text => isOn text
  | none => default

/-- Whether texts are printed readably. -/
def isReadable (settings : Settings) : Bool := settings.flag "GLISP_PRINT_READABLY" true

/-- The level from which messages are logged. -/
def logLevel (settings : Settings) : Int :=
  match settings.get? "GLISP_LOG_LEVEL" with
  | some text =>
    (levelNamed? (String.ofList (Text.uppercase (Text.trim text.toList)))).getD
      Severity.warning.level
  | none => Severity.warning.level

/-- Sets or removes a text. No environment holds a name with an equals sign, or a null character
in a name or text, or an empty name. -/
def change (settings : Settings) (name : String) (text? : Option String) :
    Except Failure Settings :=
  match text? with
  | none => .ok (settings.erase name)
  | some text =>
    if name.toList.contains '=' || name.toList.contains '\x00' || text.toList.contains '\x00' then
      .error .unsuitableSetting
    else if name.isEmpty then .error .namelessSetting
    else .ok (settings.insert name text)

end Settings

end SketchForm
