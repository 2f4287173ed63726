/-
This file lists what can go wrong, by cause.

Nothing fails silently and nothing fails for lack of a case: every operation that can
refuse its argument says which of these causes it was. The causes are the library's own;
how a caller names them is the caller's affair.
-/

namespace SketchForm

/-- Why an operation gave no result. -/
inductive Failure where
  /-- A number was needed, and the value is none and cannot be read as one. -/
  | notANumber
  /-- A text was to be read as a number and spells none. -/
  | malformedNumeral
  /-- An integer is beyond the largest double. -/
  | numberTooLarge
  /-- An integer has more digits than are ever written out. -/
  | numeralTooLong
  /-- A matrix was given by more or fewer than six numbers. -/
  | wrongMatrixLength
  /-- A value without numbered parts was asked for one of them. -/
  | notIndexable
  /-- A sequence has no member at this place. -/
  | placeOutOfRange
  /-- A table has no entry for this key. -/
  | keyMissing
  /-- A value is no key of a table, since it can change, or names no place in a sequence. -/
  | unsuitableKey
  /-- The number of a place in a row of numbers fits a word only without a sign. -/
  | placeTooLarge
  /-- A key names no part of a row of numbers. -/
  | noSuchPart
  /-- Values were to be put into places that are arranged in another shape. -/
  | wrongShape
  /-- Values for the places that a mask keeps were given in rows of rows. -/
  | tooManyLevels
  /-- A value whose parts cannot be replaced was to be changed. -/
  | unchangeable
  /-- A part of a row of numbers was to be removed, and a row keeps its length. -/
  | fixedLength
  /-- A value without members was to be gone through. -/
  | notIterable
  /-- A path was needed, and the value, here in inspected form, is no sequence. -/
  | invalidPath (inspected : String)
  /-- A node's recorded delimiters are an empty list, so there is none to end its text with. -/
  | noDelimiters
  /-- A value contains itself. -/
  | endless
  /-- A value does not have this operation. -/
  | unsupported
  /-- An operation was called with the wrong number or kinds of arguments. -/
  | wrongArguments
  /-- A log level has no such name. -/
  | unknownLevel
  /-- A setting has a name or value that no environment can hold. -/
  | unsuitableSetting
  /-- A setting was to be made without a name. -/
  | namelessSetting
  /-- An evaluator was stopped from outside. -/
  | stopped (kind : String)
  deriving DecidableEq, Repr

/-- The message of a failure that has one. -/
def Failure.message? : Failure → Option String
  | .invalidPath inspected => some ("Invalid path: " ++ inspected)
  | _ => none

end SketchForm
