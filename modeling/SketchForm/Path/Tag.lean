/-
This file says which nodes a drawing consists of.

A node is a vector headed by a keyword. Three keywords give a drawing its structure:
`:path` heads a flat run of commands and points, `:style` a group with data about how it
is drawn, and `:transform` a group with a matrix. A vector headed by any other keyword
is taken for a path whose tag was left out.
-/
import SketchForm.Tree

namespace SketchForm

/-- What the keyword at the head of a node says about it. -/
inductive Tag where
  | path
  | style
  | transform
  /-- A keyword of no such meaning. -/
  | other (id : String)
  deriving DecidableEq, Repr

/-- What a keyword of this id says about a node. -/
def Tag.ofId (id : String) : Tag :=
  if id = "path" then .path
  else if id = "style" then .style
  else if id = "transform" then .transform
  else .other id

namespace Tree

variable {R : Type}

/-- What a value says as the head of a node, if it is a keyword. -/
def asTag? (head : Tree R) : Option Tag := head.keyword?.map Tag.ofId

/-- Whether the value is the tag of a path. -/
def isPathTag (head : Tree R) : Bool := head.asTag? == some .path

/-- The tag of a node. -/
def tag? : Tree R → Option Tag
  | .sequence .vector (head :: _) => head.asTag?
  | _ => none

/-- Whether the value is a path with its tag. -/
def isPath (tree : Tree R) : Bool := tree.tag? == some .path

/-- The tokens of a path whose tag was left out. -/
def untagged? : Tree R → Option (List (Tree R))
  | .sequence .vector (head :: rest) =>
    match head.asTag? with
    | some (.other _) => some (head :: rest)
    | _ => none
  | _ => none

/-- A path with its tag. -/
def pathNode (tokens : List (Tree R)) : Tree R :=
  .sequence .vector (.scalar (.keyword "path") :: tokens)

/-- A group, with data about how it is drawn. -/
def styleNode (data : Tree R) (children : List (Tree R)) : Tree R :=
  .sequence .vector (.scalar (.keyword "style") :: data :: children)

/-- A group with a matrix. -/
def transformNode (matrix : Tree R) (children : List (Tree R)) : Tree R :=
  .sequence .vector (.scalar (.keyword "transform") :: matrix :: children)

/-- Induction over a drawing: paths, groups whose children come after the tag and one more member,
and everything that is no part of a drawing's structure. -/
theorem inductNodes {motive : Tree R → Prop}
    (path : ∀ head rest, head.asTag? = some .path → motive (.sequence .vector (head :: rest)))
    (style : ∀ head rest, head.asTag? = some .style → (∀ child ∈ rest.tail, motive child) →
      motive (.sequence .vector (head :: rest)))
    (transform : ∀ head rest, head.asTag? = some .transform → (∀ child ∈ rest.tail, motive child) →
      motive (.sequence .vector (head :: rest)))
    (passive : ∀ tree : Tree R, tree.tag? ≠ some .path → tree.tag? ≠ some .style →
      tree.tag? ≠ some .transform → motive tree) :
    ∀ tree, motive tree := by
  intro tree
  induction tree using Tree.induct with
  | sequence kind items each =>
    match kind, items, each with
    | .vector, head :: rest, each =>
      have below : ∀ child ∈ rest.tail, motive child := fun child member =>
        each child (List.mem_cons_of_mem _ (List.mem_of_mem_tail member))
      cases tagged : head.asTag? with
      | none => refine passive _ ?_ ?_ ?_ <;> simp [tag?, tagged]
      | some tag =>
        cases tag with
        | path => exact path head rest tagged
        | style => exact style head rest tagged below
        | transform => exact transform head rest tagged below
        | other id => refine passive _ ?_ ?_ ?_ <;> simp [tag?, tagged]
    | .vector, [], _ => exact passive _ nofun nofun nofun
    | .list, _, _ | .plain, _, _ | .tuple, _, _ => exact passive _ nofun nofun nofun
  | _ => exact passive _ nofun nofun nofun

end Tree

end SketchForm
