/-
This file trims blanks and folds case.

Settings come from the environment as text that people type, so they are compared
without the blanks around them and without regard to case. What counts as blank is
the Unicode property, widened by the four separator controls. The words they are
compared with are ASCII words, so case folding follows Unicode as far as ASCII
words can tell: a character whose other case is made of ASCII letters is changed,
and every other character is left alone, which keeps it different from all of
them.
-/

namespace SketchForm

namespace Text

/-! ### Blanks -/

/-- White space: the Unicode property and the separator controls from file to unit separator. -/
def isBlank (c : Char) : Bool :=
  let n := c.toNat
  (9 ≤ n && n ≤ 13) || (28 ≤ n && n ≤ 32) || n == 0x85 || n == 0xa0 || n == 0x1680
    || (0x2000 ≤ n && n ≤ 0x200a) || n == 0x2028 || n == 0x2029 || n == 0x202f || n == 0x205f
    || n == 0x3000

/-- The text without the blanks at its two ends. -/
def trim (text : List Char) : List Char :=
  ((text.dropWhile isBlank).reverse.dropWhile isBlank).reverse

/-- Whatever ASCII counts as white space is blank. -/
theorem isBlank_of_isWhitespace {c : Char} (white : c.isWhitespace = true) : isBlank c = true := by
  simp only [Char.isWhitespace, Bool.or_eq_true, decide_eq_true_eq] at white
  rcases white with ((rfl | rfl) | rfl) | rfl <;> rfl

/-! ### Case -/

/-- The capital form of a character, if it is made of ASCII letters; else the character. -/
def capital (c : Char) : List Char :=
  match c.toNat with
  | 0xdf => ['S', 'S']
  | 0x131 => ['I']
  | 0x17f => ['S']
  | 0xfb00 => ['F', 'F']
  | 0xfb01 => ['F', 'I']
  | 0xfb02 => ['F', 'L']
  | 0xfb03 => ['F', 'F', 'I']
  | 0xfb04 => ['F', 'F', 'L']
  | 0xfb05 => ['S', 'T']
  | 0xfb06 => ['S', 'T']
  | _ => [c.toUpper]

/-- The small form of a character, if it is an ASCII letter; else the character. -/
def small (c : Char) : Char := if c.toNat = 0x212a then 'k' else c.toLower

/-- The text in capitals. -/
def uppercase (text : List Char) : List Char := text.flatMap capital

/-- The text in small letters. -/
def lowercase (text : List Char) : List Char := text.map small

end Text

end SketchForm
