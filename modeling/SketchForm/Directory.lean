/-
This file holds things under names.

A directory is a list of names with what stands under them. Putting something under a
name replaces what stood there before, so no name stands there twice.
-/

namespace SketchForm

/-- Things under names. -/
structure Directory (α : Type) where
  entries : List (String × α) := []

namespace Directory

variable {α : Type}

/-- What stands under a name. -/
def get? (directory : Directory α) (name : String) : Option α := directory.entries.lookup name

/-- The directory without a name. -/
def erase (directory : Directory α) (name : String) : Directory α :=
  ⟨directory.entries.filter fun entry => entry.1 != name⟩

/-- The directory with something under a name, instead of what stood there. -/
def insert (directory : Directory α) (name : String) (value : α) : Directory α :=
  ⟨(name, value) :: (directory.erase name).entries⟩

@[simp] theorem get?_empty (name : String) : (⟨[]⟩ : Directory α).get? name = none := rfl

@[simp] theorem get?_insert_self (directory : Directory α) (name : String) (value : α) :
    (directory.insert name value).get? name = some value := by
  simp [get?, insert]

theorem get?_erase_other (directory : Directory α) {name other : String}
    (different : other ≠ name) : (directory.erase name).get? other = directory.get? other := by
  rcases directory with ⟨entries⟩
  show (entries.filter fun entry => entry.1 != name).lookup other = entries.lookup other
  induction entries with
  | nil => rfl
  | cons entry rest hypothesis =>
    rcases entry with ⟨key, value⟩
    by_cases isName : key = name
    · subst isName
      have mismatch : (other == key) = false := beq_false_of_ne different
      simp [List.lookup_cons, mismatch, hypothesis]
    · have kept : (key != name) = true := by simpa using isName
      by_cases isOther : other = key
      · simp [kept, isOther]
      · have mismatch : (other == key) = false := beq_false_of_ne isOther
        simp [List.lookup_cons, kept, mismatch, hypothesis]

theorem get?_insert_other (directory : Directory α) {name other : String} (value : α)
    (different : other ≠ name) :
    (directory.insert name value).get? other = directory.get? other := by
  rw [← get?_erase_other directory different]
  have mismatch : (other == name) = false := beq_false_of_ne different
  simp [get?, insert, List.lookup_cons, mismatch]

theorem get?_insert (directory : Directory α) (name other : String) (value : α) :
    (directory.insert name value).get? other =
      if other = name then some value else directory.get? other := by
  split
  · rename_i same
    rw [same, get?_insert_self]
  · exact get?_insert_other directory value ‹_›

end Directory

end SketchForm
