/-
This file writes values for inspection, the form in which they stand in messages.

Where the printer writes a form the way its author would, an inspected value shows
what it is: every kind of container by its name, every text in quotes, and numbers so
that a double is never mistaken for an integer. Displaying a value is the same but for
a bare text, symbol or keyword, which shows its characters alone.
-/
import SketchForm.Tree
import SketchForm.Text.Quoted
import SketchForm.Decimal.Layout

namespace SketchForm

/-- The inspected form of a scalar. An integer is taken here to have no more digits than the printer
writes out. -/
def Scalar.inspect : Scalar → String
  | .null => "None"
  | .nil => "nil"
  | .boolean value => if value then "True" else "False"
  | .integer value => toString value
  | .text content => Text.quoted content
  | .symbol name => "Symbol(" ++ Text.quoted name ++ ")"
  | .keyword id => "Keyword(" ++ Text.quoted id ++ ")"
  | .builtin => "<native function>"
  | .foreign => "<opaque>"

/-- Items between brackets, separated by commas. -/
def SequenceKind.inspect (kind : SequenceKind) (items : List String) : String :=
  let joined := ", ".intercalate items
  match kind with
  | .list => "List([" ++ joined ++ "])"
  | .vector => "Vector([" ++ joined ++ "])"
  | .plain => "[" ++ joined ++ "]"
  | .tuple => if items.length = 1 then "(" ++ joined ++ ",)" else "(" ++ joined ++ ")"

/-- Entries between braces, separated by commas. -/
def TableKind.inspect (kind : TableKind) (entries : List String) : String :=
  let joined := "\x7b" ++ ", ".intercalate entries ++ "\x7d"
  match kind with
  | .map => "Map(" ++ joined ++ ")"
  | .plain => joined

/-- A function by its kind alone. -/
def FunctionKind.inspect : FunctionKind → String
  | .procedure => "<Lambda fn>"
  | .expander => "<Macro macro>"

namespace Tree

mutual

/-- The inspected form of a value. -/
def inspect : Tree Float → String
  | .scalar value => value.inspect
  | .real value => NumberStyle.inspected.write value
  | .sequence kind items => kind.inspect (inspectEach items)
  | .table kind entries => kind.inspect (inspectEntries entries)
  | .array values => "array([" ++ ", ".intercalate (values.map NumberStyle.inspected.write) ++ "])"
  | .cell content => "Atom(" ++ inspect content ++ ")"
  | .function kind _ _ => kind.inspect

/-- The inspected forms of the members of a sequence. -/
def inspectEach : List (Tree Float) → List String
  | [] => []
  | item :: rest => inspect item :: inspectEach rest

/-- The inspected forms of the entries of a table. -/
def inspectEntries : List (Tree Float × Tree Float) → List String
  | [] => []
  | (key, value) :: rest => (inspect key ++ ": " ++ inspect value) :: inspectEntries rest

end

/-- The characters of a bare text, symbol or keyword; the inspected form of any other value. -/
def display : Tree Float → String
  | .scalar (.text content) => content
  | .scalar (.symbol name) => name
  | .scalar (.keyword id) => ":" ++ id
  | tree => tree.inspect

end Tree

end SketchForm
