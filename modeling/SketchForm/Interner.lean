/-
This file makes symbols and keywords once for each name.

Whoever asks for the symbol of a name again gets the same object as before, and so it is
with keywords. The tables are kept by the names as they are asked for. For a symbol that
is its own name; for a keyword it is the name before a colon is taken off, so two names
of one keyword lead to two objects that are equal.
-/
import SketchForm.Scalar
import SketchForm.Directory

namespace SketchForm

/-- An object made for a name: its value, and a number that tells it from all others. -/
structure Interned where
  serial : Nat
  value : Scalar
  deriving DecidableEq, Repr

/-- The objects made so far. -/
structure Interner where
  symbols : Directory Interned := {}
  keywords : Directory Interned := {}
  /-- How many objects were made. -/
  count : Nat := 0

/-- Asks for the object of a name in one of the two tables. -/
inductive InternRequest where
  | symbol (name : String)
  | keyword (name : String)
  deriving DecidableEq, Repr

namespace Interner

/-- The symbol of a name, made now if there is none yet. -/
def symbolFor (interner : Interner) (name : String) : Interned × Interner :=
  match interner.symbols.get? name with
  | some symbol => (symbol, interner)
  | none =>
    let symbol := ⟨interner.count, .symbol name⟩
    (symbol, { interner with
      symbols := interner.symbols.insert name symbol, count := interner.count + 1 })

/-- The keyword of a name, made now if there is none yet. -/
def keywordFor (interner : Interner) (name : String) : Interned × Interner :=
  match interner.keywords.get? name with
  | some keyword => (keyword, interner)
  | none =>
    let keyword := ⟨interner.count, .keywordNamed name⟩
    (keyword, { interner with
      keywords := interner.keywords.insert name keyword, count := interner.count + 1 })

/-- The object asked for. -/
def answer (interner : Interner) : InternRequest → Interned × Interner
  | .symbol name => interner.symbolFor name
  | .keyword name => interner.keywordFor name

/-- The objects asked for one after another. -/
def answerAll (interner : Interner) : List InternRequest → List Interned × Interner
  | [] => ([], interner)
  | request :: rest =>
    let first := interner.answer request
    let others := first.2.answerAll rest
    (first.1 :: others.1, others.2)

end Interner

end SketchForm
