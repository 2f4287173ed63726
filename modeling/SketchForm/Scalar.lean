/-
This file holds the values that have no parts.

A form is built from these: the absent value, the value `nil`, truth values, integers,
texts, symbols and keywords, and two kinds of object about which nothing is known but
that they are functions of the host, or not even that. Symbols and keywords are names;
a keyword is a name used as a tag, and the two are never equal. Floating-point numbers
are not among the scalars, since a number that is no number is equal to itself only as
the same object, so numbers of that kind have an identity.
-/

namespace SketchForm

/-- A value without parts and without identity of its own. -/
inductive Scalar where
  /-- The absent value, which also stands for a function body that is not there. -/
  | null
  /-- The value `nil`. -/
  | nil
  | boolean (value : Bool)
  | integer (value : Int)
  | text (content : String)
  | symbol (name : String)
  | keyword (id : String)
  /-- A function of the host, which cannot be looked into. -/
  | builtin
  /-- A value of a kind that is not known here. -/
  | foreign
  deriving DecidableEq, Repr, Inhabited

namespace Scalar

/-- The id of the keyword made from a name: a colon in front of the name is the keyword's own
marker and does not belong to the id. -/
def keywordId (name : List Char) : List Char :=
  match name with
  | ':' :: rest => rest
  | _ => name

/-- The keyword made from a name. -/
def keywordNamed (name : String) : Scalar := .keyword (String.ofList (keywordId name.toList))

/-- Whether the value stands for nothing, absent or `nil`. -/
def isNil : Scalar → Bool
  | .null | .nil => true
  | _ => false

/-- The number that a truth value or an integer counts as. -/
def integer? : Scalar → Option Int
  | .boolean value => some (if value then 1 else 0)
  | .integer value => some value
  | _ => none

@[simp] theorem keywordId_cons_marker (name : List Char) : keywordId (':' :: name) = name := rfl

end Scalar

end SketchForm
