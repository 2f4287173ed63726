/-
This file holds values as trees: what a value is made of, without the identity of its
parts.

Compiling a drawing, comparing texts and inspecting a value ask only what a value
contains. For those purposes a value is a tree, whose leaves are scalars and real
numbers and whose inner nodes are sequences, tables, cells and functions. The type of
the real numbers is a parameter: programs run on doubles, and the laws of drawing are
about any numbers that can be added and multiplied.

A sequence comes in four kinds that behave alike in most respects. Lists and vectors
print with round and square brackets, a plain sequence behaves like a list without a
memory of its own, and a tuple cannot be changed and has no printed form. Tables come
in two kinds in the same way.
-/
import SketchForm.Scalar

namespace SketchForm

/-- The kinds of sequence. -/
inductive SequenceKind where
  | list
  | vector
  | plain
  | tuple
  deriving DecidableEq, Repr, Inhabited

/-- The kinds of table. -/
inductive TableKind where
  | map
  | plain
  deriving DecidableEq, Repr, Inhabited

/-- The kinds of function that a form can define: one called on values, one on forms. -/
inductive FunctionKind where
  | procedure
  | expander
  deriving DecidableEq, Repr, Inhabited

/-- The name under which a function of this kind is defined. -/
def FunctionKind.typeName : FunctionKind → String
  | .procedure => "fn"
  | .expander => "macro"

/-- A value by its contents, with real numbers in `R`. -/
inductive Tree (R : Type) where
  | scalar (value : Scalar)
  | real (value : R)
  | sequence (kind : SequenceKind) (items : List (Tree R))
  | table (kind : TableKind) (entries : List (Tree R × Tree R))
  /-- A row of numbers. -/
  | array (values : List R)
  /-- A cell that can be filled anew, with what it holds. -/
  | cell (content : Tree R)
  /-- A function; a body of `null` means that it has none. -/
  | function (kind : FunctionKind) (params body : Tree R)
  deriving Inhabited

namespace Tree

variable {R : Type}

/-! ### Induction -/

/-- Induction over a tree, with the hypothesis for every member of a sequence and for key and
value of every entry of a table. -/
theorem induct {motive : Tree R → Prop}
    (scalar : ∀ value, motive (.scalar value))
    (real : ∀ value, motive (.real value))
    (sequence : ∀ kind items, (∀ item ∈ items, motive item) → motive (.sequence kind items))
    (table : ∀ kind entries, (∀ entry ∈ entries, motive entry.1 ∧ motive entry.2) →
      motive (.table kind entries))
    (array : ∀ values, motive (.array values))
    (cell : ∀ content, motive content → motive (.cell content))
    (function : ∀ kind params body, motive params → motive body →
      motive (.function kind params body)) :
    ∀ tree, motive tree := by
  intro tree
  refine Tree.rec (motive_1 := motive)
    (motive_2 := fun items => ∀ item ∈ items, motive item)
    (motive_3 := fun entries => ∀ entry ∈ entries, motive entry.1 ∧ motive entry.2)
    (motive_4 := fun entry => motive entry.1 ∧ motive entry.2)
    scalar real sequence table array cell function ?_ ?_ ?_ ?_ ?_ tree
  · exact fun _ member => absurd member List.not_mem_nil
  · intro head tail headHolds tailHolds item member
    rcases List.mem_cons.mp member with rfl | inTail
    · exact headHolds
    · exact tailHolds item inTail
  · exact fun _ member => absurd member List.not_mem_nil
  · intro head tail headHolds tailHolds entry member
    rcases List.mem_cons.mp member with rfl | inTail
    · exact headHolds
    · exact tailHolds entry inTail
  · exact fun _ _ keyHolds valueHolds => ⟨keyHolds, valueHolds⟩

/-! ### Looking at the top of a tree -/

/-- The id of a keyword. -/
def keyword? : Tree R → Option String
  | .scalar (.keyword id) => some id
  | _ => none

/-- Whether the value is a keyword. -/
def isKeyword (tree : Tree R) : Bool := tree.keyword?.isSome

/-- Whether the value stands for nothing, absent or `nil`. -/
def isNil : Tree R → Bool
  | .scalar value => value.isNil
  | _ => false

/-- Whether the value is a function with a body. -/
def hasBody : Tree R → Bool
  | .function _ _ (.scalar .null) => false
  | .function _ _ _ => true
  | _ => false

/-- The members of a sequence or of a row of numbers. -/
def members? : Tree R → Option (List (Tree R))
  | .sequence _ items => some items
  | .array values => some (values.map .real)
  | _ => none

@[simp] theorem keyword?_keyword (id : String) :
    (Tree.scalar (.keyword id) : Tree R).keyword? = some id := rfl

end Tree

end SketchForm
