/-
This file writes string literals.

A literal stands between double quotes. Inside it a backslash, a double quote and a
line break are written with a backslash in front, the line break as the letter `n`;
every other character stands for itself. The first double quote without a backslash
in front of it is therefore the end of the literal, and no literal holds a raw line
break.
-/

namespace SketchForm

namespace Text

/-- One character inside a literal. -/
def escapeChar (c : Char) : List Char :=
  if c = '\\' then ['\\', '\\']
  else if c = '"' then ['\\', '"']
  else if c = '\n' then ['\\', 'n']
  else [c]

/-- The characters of a text as they stand inside a literal. -/
def escape (text : List Char) : List Char := text.flatMap escapeChar

/-- The literal for a text, with its quotes. -/
def literal (text : String) : String := String.ofList ('"' :: (escape text.toList ++ ['"']))

@[simp] theorem escape_nil : escape [] = [] := rfl

@[simp] theorem escape_cons (c : Char) (rest : List Char) :
    escape (c :: rest) = escapeChar c ++ escape rest := rfl

end Text

end SketchForm
