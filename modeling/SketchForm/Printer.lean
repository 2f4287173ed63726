/-
This file writes forms out as source text.

Scalars, numbers, cells and functions are written anew every time. On a list, a vector
or a map the printer notes what it wrote: the texts of the elements, the delimiters and
whether the node was written in short form. What is noted is used from then on, and
since delimiters are noted apart from the elements, a form keeps the layout that
somebody gave it. The brackets are never noted; they follow the kind of the node and
the elements it has now.

Integers have any size, but there is a limit to how many digits are written out. An
integer with more of them has no text, and neither has a form in which it would have to
be written.

A text is written *readably*, as a literal, or as its characters alone. The choice does
not enter the notes, so the elements of a node stay as they were first written.

The printer follows references, and a value that contained itself would have no end.
So it follows them no deeper than a value without such a loop can be.
-/
import SketchForm.Printer.Group
import SketchForm.Store.Unfold
import SketchForm.Text.Literal
import SketchForm.Decimal.Layout

namespace SketchForm

/-- Printing: it may note what it wrote, and it may fail. What was noted before a failure stays. -/
abbrev Printing := ExceptT Failure (StateM Memos)

/-- The written form of what has none. -/
def undefinedText : String := "<undefined>"

/-- The written form of a function that cannot be looked into. -/
def nativeFunctionText : String := "<native function>"

/-- The most digits that an integer is written out with. -/
def digitLimit : Nat := 4300

/-- A scalar as source text, however long. -/
def Scalar.source (isReadable : Bool) : Scalar → String
  | .null | .nil => "nil"
  | .boolean value => if value then "true" else "false"
  | .integer value => toString value
  | .text content => if isReadable then Text.literal content else content
  | .symbol name => name
  | .keyword id => ":" ++ id
  | .builtin => nativeFunctionText
  | .foreign => undefinedText

/-- Whether a scalar is written out: an integer with too many digits is not. -/
def Scalar.isWritable : Scalar → Bool
  | .integer value => Decimal.digitCount value.natAbs ≤ digitLimit
  | _ => true

/-- A scalar as source text, if it is written out. -/
def Scalar.print (isReadable : Bool) (value : Scalar) : Except Failure String :=
  if value.isWritable then .ok (value.source isReadable) else .error .numeralTooLong

namespace Printing

/-- What is noted on an object. -/
def memoOf (id : ObjectId) : Printing Memo := fun memos => (.ok (memos id), memos)

/-- Notes something on an object. -/
def note (id : ObjectId) (change : Memo → Memo) : Printing Unit :=
  fun memos => (.ok (), memos.update id change)

/-- Ends with a result that is known. -/
def settle {α : Type} (result : Except Failure α) : Printing α := fun memos => (result, memos)

@[simp] theorem settle_ok {α : Type} (value : α) : settle (.ok value) = pure value := rfl

/-- Writes a node on which nothing is ever noted. -/
def printGroup (printPart : Ref → Printing String) (group : Group) : Printing String := do
  let printed ← group.parts.mapM printPart
  settle (group.assemble group.delimiters (group.elementTexts printed))

/-- The texts of a node's elements, as noted or else written now and noted. -/
def elementTexts (printPart : Ref → Printing String) (id : ObjectId) (group : Group) :
    Printing (List String) := do
  match (← memoOf id).elementTexts? with
  | some texts => pure texts
  | none =>
    let texts := group.elementTexts (← group.parts.mapM printPart)
    note id fun memo => { memo with elementTexts? := some texts }
    pure texts

/-- The delimiters of a node, as noted or else the usual ones, which are then noted. -/
def delimiters (id : ObjectId) (group : Group) : Printing (List String) := do
  match (← memoOf id).delimiters? with
  | some delimiters => pure delimiters
  | none =>
    note id fun memo => { memo with delimiters? := some group.delimiters }
    pure group.delimiters

/-- Notes that a node was written in short form, unless something is noted about that. -/
def noteSugar (id : ObjectId) (group : Group) : Printing Unit := do
  if group.sugar?.isSome && (← memoOf id).isSugar?.isNone then
    note id fun memo => { memo with isSugar? := some true }

/-- Writes a node on which the printer notes what it writes. -/
def printNoted (printPart : Ref → Printing String) (id : ObjectId) (group : Group) :
    Printing String := do
  let texts ← elementTexts printPart id group
  let delimiters ← delimiters id group
  noteSugar id group
  settle (group.assemble delimiters texts)

/-- Writes a value that is at most so deep. -/
def print (objects : Objects) (isReadable : Bool) : Nat → Ref → Printing String
  | 0, _ => throw .endless
  | depth + 1, ref =>
    match ref with
    | .scalar value => settle (value.print isReadable)
    | .object id =>
      let printPart := print objects isReadable depth
      let object := objects.look (.object id)
      match Group.ofObject? objects object with
      | some group =>
        if object.keepsMemo then printNoted printPart id group else printGroup printPart group
      | none =>
        match object with
        | .scalar value => settle (value.print isReadable)
        | .real value => pure (NumberStyle.printed.write value)
        | .cell content => do
          let text ← printPart content
          pure ("(atom " ++ text ++ ")")
        | .function kind params body =>
          if objects.scalar? body = some .null then pure nativeFunctionText
          else do
            let paramsText ← printPart params
            let bodyText ← printPart body
            pure ("(" ++ kind.typeName ++ " " ++ paramsText ++ " " ++ bodyText ++ ")")
        | _ => pure undefinedText

end Printing

/-- Writes a value as source text. The contents of the store stay as they are, and the notes of
the printer may grow. -/
def Store.print (store : Store) (isReadable : Bool) (ref : Ref) : Except Failure String × Store :=
  let result := Printing.print store.objects isReadable store.objects.depth ref store.memos
  (result.1, { store with memos := result.2 })

end SketchForm
