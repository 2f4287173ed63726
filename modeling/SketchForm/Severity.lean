/-
This file ranks messages by how serious they are.

Each degree of seriousness has a number and a name. Levels, from which on messages are
logged, are such numbers; some have a second name, and zero, the level that has not been
set, has one too.
-/

namespace SketchForm

/-- How serious a message is. -/
inductive Severity where
  | debug
  | info
  | warning
  | error
  | critical
  deriving DecidableEq, Repr

namespace Severity

/-- The number of a severity. -/
def level : Severity → Int
  | .debug => 10
  | .info => 20
  | .warning => 30
  | .error => 40
  | .critical => 50

/-- The name of a severity. -/
def name : Severity → String
  | .debug => "DEBUG"
  | .info => "INFO"
  | .warning => "WARNING"
  | .error => "ERROR"
  | .critical => "CRITICAL"

end Severity

/-- The level of this name. -/
def levelNamed? (name : String) : Option Int :=
  if name = "NOTSET" then some 0
  else if name = "WARN" then some Severity.warning.level
  else if name = "FATAL" then some Severity.critical.level
  else
    ([.debug, .info, .warning, .error, .critical].find? fun severity : Severity =>
      severity.name == name).map Severity.level

end SketchForm
