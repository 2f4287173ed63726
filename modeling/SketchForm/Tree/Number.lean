/-
This file reads values as numbers and writes numbers as texts.

Two notions of number are kept apart. A *numeral* is a number as it stands in a
drawing: an integer or a real, never a truth value. A value *counts as* a number in a
wider sense when a caller hands it over as one: a truth value counts as zero or one, a
text as the number it spells. A row of numbers is not a number, however short it is.
Integers have any size, doubles do not, so reading an integer as a double can fail.
-/
import SketchForm.Quantity
import SketchForm.Tree.Inspect
import SketchForm.Decimal.Numeral

namespace SketchForm

namespace Tree

/-! ### Numerals -/

/-- The number that stands here, truth values being none. -/
def numeral? {R : Type} : Tree R → Option (Quantity R)
  | .scalar (.integer n) => some (.whole n)
  | .real x => some (.real x)
  | _ => none

/-- The numbers that a sequence or row consists of, if it consists of numbers only. -/
def numerals? {R : Type} (tree : Tree R) : Option (List (Quantity R)) :=
  tree.members?.bind fun members => members.mapM numeral?

/-! ### Values that count as numbers -/

/-- The number that a value is equal to, truth values being zero and one. -/
def amount? {R : Type} : Tree R → Option (Quantity R)
  | .scalar value => value.integer?.map .whole
  | .real x => some (.real x)
  | _ => none

/-- The double that a value counts as. -/
def toFloat : Tree Float → Except Failure Float
  | .scalar (.text content) =>
    match Numeral.read? content with
    | some x => .ok x
    | none => .error .malformedNumeral
  | tree =>
    match tree.amount? with
    | some amount => amount.toReal
    | none => .error .notANumber

/-! ### Texts of numbers -/

/-- The text of a number among the tokens of a path; a truth value is shown by its name. An integer
is taken here to have no more digits than the printer writes out. -/
def numberText? : Tree Float → Option String
  | .real x => some (NumberStyle.printed.write x)
  | .scalar (.boolean value) => some (Scalar.boolean value).inspect
  | .scalar (.integer n) => some (toString n)
  | _ => none

/-- The text of any value that counts as a number. -/
def formatNumber (tree : Tree Float) : Except Failure String :=
  match tree.numberText? with
  | some text => .ok text
  | none => tree.toFloat.map NumberStyle.printed.write

/-! ### Truth -/

/-- Whether a value counts as true: neither nothing, nor zero, nor empty. -/
def isTruthy : Tree Float → Bool
  | .scalar value =>
    match value with
    | .null | .nil => false
    | .boolean flag => flag
    | .integer n => n != 0
    | .text content => content != ""
    | _ => true
  | .real x => x != 0
  | .sequence _ items => !items.isEmpty
  | .table _ entries => !entries.isEmpty
  | .array values => values.any (· != 0)
  | .cell _ | .function _ _ _ => true

end Tree

end SketchForm
