/-
This file says how the nodes of a form are laid out: what stands around their elements
and what between them.

A list, a vector or a table is written as its elements between an opening and a closing
text, with a delimiter before the first element, between any two, and after the last.
Unless somebody noted other delimiters, the first and the last are empty and those
between are one space.

Three forms have a short way of writing. A list headed by one of three symbols, and
exactly as long as that symbol asks for, is written as a mark and its arguments, with
nothing between them; the head itself leaves no text.
-/
import SketchForm.Store
import SketchForm.Failure

namespace SketchForm

/-! ### Short forms -/

/-- A short way of writing a list. -/
structure Sugar where
  /-- The length of the lists written this way, head included. -/
  length : Nat
  /-- What is written instead of head and brackets. -/
  mark : String
  deriving DecidableEq, Repr

/-- The short way of writing lists headed by the symbol of this name. -/
def Sugar.ofHead? (name : String) : Option Sugar :=
  if name = "quote" then some ⟨2, "'"⟩
  else if name = "ui-annotate" then some ⟨3, "#"⟩
  else if name = "with-meta-sugar" then some ⟨3, "^"⟩
  else none

/-- The short way of writing a sequence with this head and this length. -/
def Sugar.ofSequence? (head : Scalar) (length : Nat) : Option Sugar :=
  match head with
  | .symbol name => (Sugar.ofHead? name).filter fun sugar => sugar.length == length
  | _ => none

/-! ### Delimiters -/

/-- The delimiters around and between so many elements when nobody noted others. No element
leaves one empty delimiter, and so many elements fewer than none leave two. -/
def defaultDelimiters (count : Int) : List String :=
  if count = 0 then [""] else "" :: (List.replicate (count - 1).toNat " " ++ [""])

/-! ### Nodes -/

/-- How a node with elements is written. -/
structure Group where
  /-- The elements, a table's keys and values by turns. -/
  parts : List Ref
  /-- The short form, if the node has one. -/
  sugar? : Option Sugar
  opening : String
  closing : String

namespace Group

/-- A sequence in round brackets, or in its short form if the scalar at its head asks for one. -/
def round (head? : Option Scalar) (items : List Ref) : Group :=
  match head?.bind fun head => Sugar.ofSequence? head items.length with
  | some sugar => ⟨items, some sugar, sugar.mark, ""⟩
  | none => ⟨items, none, "(", ")"⟩

/-- How an object with elements is written; a tuple has no written form. -/
def ofObject? (objects : Objects) : Object → Option Group
  | .sequence .list items | .sequence .plain items =>
    some (round (items.head?.bind objects.scalar?) items)
  | .sequence .vector items => some ⟨items, none, "[", "]"⟩
  | .table _ entries =>
    some ⟨entries.flatMap fun entry => [entry.1, entry.2], none, "\x7b", "\x7d"⟩
  | _ => none

/-- The delimiters of a node on which none are noted. -/
def delimiters (group : Group) : List String :=
  match group.sugar? with
  | some sugar => List.replicate sugar.length ""
  | none => defaultDelimiters group.parts.length

/-- The texts that count for the elements: the head of a short form leaves none. -/
def elementTexts (group : Group) (printed : List String) : List String :=
  match group.sugar? with
  | some _ => printed.set 0 ""
  | none => printed

/-- The text of the node: a delimiter before every element, and the last delimiter at the end.
Delimiters or elements without a partner are left out. -/
def assemble (group : Group) (delimiters texts : List String) : Except Failure String :=
  match delimiters.getLast? with
  | some last =>
    .ok (group.opening ++ String.join (List.zipWith (· ++ ·) delimiters texts) ++ last
      ++ group.closing)
  | none => .error .noDelimiters

end Group

end SketchForm
