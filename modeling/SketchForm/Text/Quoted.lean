/-
This file writes a text for inspection, so that two texts that look alike on a page
still read differently.

The text stands between single quotes, or between double quotes if it holds a single
quote and no double one. The backslash, the quote in use, line breaks, returns and
tabs are escaped by a backslash, and every other character that is not printable by
its code in two, four or eight hexadecimal digits, whichever is the least that fits.
-/
import SketchForm.Text.Printable

namespace SketchForm

namespace Text

/-- The quote that stands around an inspected text. -/
def chooseQuote (text : List Char) : Char :=
  if text.contains '\'' && !text.contains '"' then '"' else '\''

/-- A code point in hexadecimal with this many digits. -/
def hexadecimal (width code : Nat) : List Char :=
  let digits := Nat.toDigits 16 code
  List.replicate (width - digits.length) '0' ++ digits

/-- One character inside an inspected text. -/
def inspectChar (quote c : Char) : List Char :=
  if c = quote ∨ c = '\\' then ['\\', c]
  else if c = '\n' then ['\\', 'n']
  else if c = '\r' then ['\\', 'r']
  else if c = '\t' then ['\\', 't']
  else if isPrintable c then [c]
  else if c.toNat < 0x100 then '\\' :: 'x' :: hexadecimal 2 c.toNat
  else if c.toNat < 0x10000 then '\\' :: 'u' :: hexadecimal 4 c.toNat
  else '\\' :: 'U' :: hexadecimal 8 c.toNat

/-- The text with its quotes and escapes. -/
def quoted (text : String) : String :=
  let characters := text.toList
  let quote := chooseQuote characters
  String.ofList (quote :: (characters.flatMap (inspectChar quote) ++ [quote]))

end Text

end SketchForm
