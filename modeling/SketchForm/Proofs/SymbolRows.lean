/-
This file says how values made of symbols are spelled, and what a row of them is.

Such a value is a word, stands in brackets, or is written behind a mark: one value behind
the mark of a quotation, and two, with nothing between them, behind the marks of two other
forms. A row is a list of values side by side in which every word is followed by
something else than a word. What is left of a row when its first value is opened, be it
the arguments behind a mark, the members in brackets or the end of a word, is a row again.
-/
import Mathlib.Data.List.Chain
import SketchForm.Proofs.Decoding

namespace SketchForm

namespace Tree

/-! ### Values made of symbols -/

/-- The characters that names of symbols do without: the space, brackets and marks. -/
def separators : List Char := [' ', '(', ')', '[', ']', '\x7b', '\x7d', '\'', '#', '^']

/-- Whether a value is made of symbols by lists and vectors. -/
inductive Symbolic : Tree Float → Prop
  | symbol {name : String} (nonempty : name ≠ "") (solid : ∀ c ∈ name.toList, c ∉ separators) :
      Symbolic (.scalar (.symbol name))
  | list {items : List (Tree Float)} (each : ∀ item ∈ items, Symbolic item) :
      Symbolic (.sequence .list items)
  | vector {items : List (Tree Float)} (each : ∀ item ∈ items, Symbolic item) :
      Symbolic (.sequence .vector items)

theorem symbolic_of_all {name : String} (nonempty : name ≠ "")
    (solid : name.toList.all (· ∉ separators) = true) : Symbolic (.scalar (.symbol name)) :=
  .symbol nonempty (List.all_iff_forall_prop.mp solid)

/-- The heads of the forms with two arguments, and the marks that are written for them. -/
def pairMarks : List (String × Char) := [("ui-annotate", '#'), ("with-meta-sugar", '^')]

/-- A form with two arguments behind a mark. -/
def pair (head : String) (first second : Tree Float) : Tree Float :=
  .sequence .list [.scalar (.symbol head), first, second]

/-- Whether the source of a value ends in a bracket. -/
def EndsInBracket (tree : Tree Float) : Prop := ∃ c ∈ closings, tree.spelling.getLast? = some c

/-- Whether two values can stand side by side: a symbol only behind a bracket. -/
def Clear (first second : Tree Float) : Prop :=
  (∃ name, second = .scalar (.symbol name)) → first.EndsInBracket

/-- Whether the arguments behind every mark in a value can stand side by side. -/
inductive Separated : Tree Float → Prop
  | scalar (value : Scalar) : Separated (.scalar value)
  | list {items : List (Tree Float)} (each : ∀ item ∈ items, Separated item)
      (clear : ∀ head first second, .sequence .list items = pair head first second →
        head ∈ ["ui-annotate", "with-meta-sugar"] → Clear first second) :
      Separated (.sequence .list items)
  | vector {items : List (Tree Float)} (each : ∀ item ∈ items, Separated item) :
      Separated (.sequence .vector items)

/-- The head of such a form is a symbol as any other. -/
theorem symbolic_pair {head : String} (isHead : head ∈ ["ui-annotate", "with-meta-sugar"])
    {first second : Tree Float} (firstSymbolic : first.Symbolic)
    (secondSymbolic : second.Symbolic) : (pair head first second).Symbolic := by
  have symbol : (Tree.scalar (.symbol head) : Tree Float).Symbolic := by
    rcases List.mem_pair.mp isHead with rfl | rfl
    · exact symbolic_of_all (by decide) (by decide)
    · exact symbolic_of_all (by decide) (by decide)
  exact .list (List.forall_mem_cons.mpr ⟨symbol, List.forall_mem_cons.mpr
    ⟨firstSymbolic, List.forall_mem_singleton.mpr secondSymbolic⟩⟩)

/-! ### How such values are spelled -/

/-- How a value made of symbols is spelled: as a word, in brackets, or behind a mark. A word has no
character that says what it is; the others begin with one. -/
inductive Spelled : Tree Float → Option Char → Prop
  | word {name : String} (nonempty : name ≠ "") (solid : ∀ c ∈ name.toList, c ∉ separators) :
      Spelled (.scalar (.symbol name)) none
  | list {items : List (Tree Float)} (each : ∀ item ∈ items, Symbolic item)
      (plain : shortForm? items = none) : Spelled (.sequence .list items) (some '(')
  | vector {items : List (Tree Float)} (each : ∀ item ∈ items, Symbolic item) :
      Spelled (.sequence .vector items) (some '[')
  | quotation {argument : Tree Float} (symbolic : argument.Symbolic) :
      Spelled (.sequence .list [.scalar (.symbol "quote"), argument]) (some '\'')
  | pair {head : String} {mark : Char} (isMark : (head, mark) ∈ pairMarks)
      {first second : Tree Float} (firstSymbolic : first.Symbolic)
      (secondSymbolic : second.Symbolic) : Spelled (pair head first second) (some mark)

theorem exists_mark {head : String} (isHead : head ∈ ["ui-annotate", "with-meta-sugar"]) :
    ∃ mark, (head, mark) ∈ pairMarks := by
  simpa [pairMarks, exists_or] using isHead

/-- A mark tells the head of the form. -/
theorem eq_of_mark {head other : String} {mark : Char} (isMark : (head, mark) ∈ pairMarks)
    (isOther : (other, mark) ∈ pairMarks) : head = other := by
  simp only [pairMarks, List.mem_cons, List.not_mem_nil, or_false, Prod.mk.injEq] at isMark isOther
  rcases isMark with ⟨rfl, rfl⟩ | ⟨rfl, rfl⟩ <;> simpa [eq_comm] using isOther

theorem spelling_pair {head : String} {mark : Char} (isMark : (head, mark) ∈ pairMarks)
    (first second : Tree Float) :
    (pair head first second).spelling = mark :: (first.spelling ++ second.spelling) := by
  have joined : (String.join [first.source true, second.source true]).toList =
      first.spelling ++ second.spelling := by
    rw [String.toList_join, List.flatMap_cons, List.flatMap_singleton]
    rfl
  rw [← joined]
  simp only [pairMarks, List.mem_cons, List.not_mem_nil, or_false, Prod.mk.injEq] at isMark
  rcases isMark with ⟨rfl, rfl⟩ | ⟨rfl, rfl⟩
  · exact String.toList_append (s := "#")
  · exact String.toList_append (s := "^")

/-- Every value made of symbols is spelled in one of these ways. -/
theorem Symbolic.exists_spelled {tree : Tree Float} (symbolic : tree.Symbolic) :
    ∃ lead, tree.Spelled lead := by
  cases symbolic with
  | symbol nonempty solid => exact ⟨_, .word nonempty solid⟩
  | vector each => exact ⟨_, .vector each⟩
  | list each =>
    rename_i items
    cases short : shortForm? items with
    | none => exact ⟨_, .list each short⟩
    | some sugar =>
      rcases quotation_or_pair_of_shortForm? short with ⟨argument, rfl⟩ |
        ⟨head, isHead, first, second, rfl⟩
      · exact ⟨_, .quotation (each argument (by simp))⟩
      · obtain ⟨mark, isMark⟩ := exists_mark isHead
        exact ⟨_, .pair isMark (each first (by simp)) (each second (by simp))⟩

/-- A value begins with the character that says what it is, or with one that no name does without
if it is a word. -/
theorem Spelled.exists_head {tree : Tree Float} {lead : Option Char} (spelled : tree.Spelled lead) :
    ∃ c, tree.spelling.head? = some c ∧ c ∉ ' ' :: closings ∧
      lead = if c ∈ separators then some c else none := by
  cases spelled with
  | word nonempty solid =>
    rename_i name
    obtain ⟨c, rest, isName⟩ :=
      List.exists_cons_of_ne_nil fun empty => nonempty (String.toList_eq_nil_iff.mp empty)
    have notSeparator := solid c (isName ▸ List.mem_cons_self)
    have ends : ∀ c ∈ ' ' :: closings, c ∈ separators := List.all_iff_forall_prop.mp (by decide)
    have isHead : (spelling (.scalar (.symbol name))).head? = some c := by
      show name.toList.head? = some c
      rw [isName]
      rfl
    exact ⟨c, isHead, fun isEnd => notSeparator (ends c isEnd), (if_neg notSeparator).symm⟩
  | list each plain =>
    rw [spelling_list plain]
    exact ⟨'(', rfl, by decide, rfl⟩
  | vector each =>
    rw [spelling_vector]
    exact ⟨'[', rfl, by decide, rfl⟩
  | quotation symbolic =>
    rw [spelling_quote]
    exact ⟨'\'', rfl, by decide, rfl⟩
  | pair isMark firstSymbolic secondSymbolic =>
    rename_i head mark first second
    have among : mark ∈ pairMarks.map Prod.snd := List.mem_map_of_mem isMark
    have begins : ∀ mark ∈ pairMarks.map Prod.snd, mark ∉ ' ' :: closings ∧ mark ∈ separators :=
      List.all_iff_forall_prop.mp (by decide)
    rw [spelling_pair isMark]
    exact ⟨mark, rfl, (begins mark among).1, (if_pos (begins mark among).2).symm⟩

theorem Symbolic.begins {tree : Tree Float} (symbolic : tree.Symbolic) : tree.Begins := by
  obtain ⟨lead, spelled⟩ := symbolic.exists_spelled
  obtain ⟨c, isHead, begins, _⟩ := spelled.exists_head
  exact ⟨c, isHead, begins⟩

theorem Symbolic.spelling_ne_nil {tree : Tree Float} (symbolic : tree.Symbolic) :
    tree.spelling ≠ [] := by
  obtain ⟨c, isHead, _⟩ := symbolic.begins
  intro empty
  rw [empty] at isHead
  cases isHead

/-- Values with the same text begin alike, whatever follows them. -/
theorem Spelled.lead_eq {tree other : Tree Float} {lead otherLead : Option Char}
    (spelled : tree.Spelled lead) (otherSpelled : other.Spelled otherLead)
    {rest otherRest : List Char} (same : tree.spelling ++ rest = other.spelling ++ otherRest) :
    lead = otherLead := by
  obtain ⟨c, isHead, _, leads⟩ := spelled.exists_head
  obtain ⟨otherChar, isOtherHead, _, otherLeads⟩ := otherSpelled.exists_head
  have heads := congrArg List.head? same
  rw [List.head?_append, List.head?_append, isHead, isOtherHead] at heads
  cases heads
  rw [leads, otherLeads]

/-! ### Rows of values -/

/-- The text of values side by side. -/
def together (trees : List (Tree Float)) : List Char := trees.flatMap spelling

/-- A row of values in which no words run together. -/
structure Row (trees : List (Tree Float)) : Prop where
  symbolic : ∀ tree ∈ trees, tree.Symbolic
  separated : ∀ tree ∈ trees, tree.Separated
  clear : trees.IsChain Clear

theorem Row.nil : Row [] := ⟨nofun, nofun, .nil⟩

section Row

variable {tree other first second argument : Tree Float} {trees items : List (Tree Float)}

theorem Row.tail (row : Row (tree :: trees)) : Row trees where
  symbolic := (List.forall_mem_cons.mp row.symbolic).2
  separated := (List.forall_mem_cons.mp row.separated).2
  clear := row.clear.tail

theorem Row.cons (symbolic : tree.Symbolic) (separated : tree.Separated)
    (clear : ∀ next ∈ trees.head?, Clear tree next) (row : Row trees) : Row (tree :: trees) where
  symbolic := List.forall_mem_cons.mpr ⟨symbolic, row.symbolic⟩
  separated := List.forall_mem_cons.mpr ⟨separated, row.separated⟩
  clear := List.isChain_cons.mpr ⟨clear, row.clear⟩

/-- What stands behind a value can stand behind another that ends in a bracket if the first does. -/
theorem Row.clear_head (row : Row (tree :: trees))
    (ends : tree.EndsInBracket → other.EndsInBracket) : ∀ next ∈ trees.head?, Clear other next :=
  fun next isNext isSymbol => ends ((List.isChain_cons.mp row.clear).1 next isNext isSymbol)

theorem Row.single (symbolic : tree.Symbolic) (separated : tree.Separated) : Row [tree] :=
  .cons symbolic separated nofun .nil

/-- A word does not end in a bracket. -/
theorem not_endsInBracket_word {name : String} (solid : ∀ c ∈ name.toList, c ∉ separators) :
    ¬ EndsInBracket (.scalar (.symbol name)) := by
  rintro ⟨c, isClosing, isLast⟩
  have ends : ∀ c ∈ closings, c ∈ separators := List.all_iff_forall_prop.mp (by decide)
  exact solid c (List.mem_of_getLast? isLast) (ends c isClosing)

/-- The rest of a word can stand where the word stands. -/
theorem Row.word {name shorter : String} (row : Row (.scalar (.symbol name) :: trees))
    (solid : ∀ c ∈ name.toList, c ∉ separators) (nonempty : shorter ≠ "")
    (among : ∀ c ∈ shorter.toList, c ∈ name.toList) :
    Row (.scalar (.symbol shorter) :: trees) :=
  .cons (.symbol nonempty fun c member => solid c (among c member)) (.scalar _)
    (row.clear_head fun ends => absurd ends (not_endsInBracket_word solid)) row.tail

/-- What is quoted can stand where the quotation stands. -/
theorem Row.quotation
    (row : Row (.sequence .list [.scalar (.symbol "quote"), argument] :: trees)) :
    Row (argument :: trees) := by
  have symbolic : argument.Symbolic := by
    cases row.symbolic _ List.mem_cons_self with
    | list each => exact each argument (by simp)
  have separated : argument.Separated := by
    cases row.separated _ List.mem_cons_self with
    | list each clear => exact each argument (by simp)
  refine .cons symbolic separated (row.clear_head ?_) row.tail
  rintro ⟨c, isClosing, isLast⟩
  refine ⟨c, isClosing, ?_⟩
  rwa [spelling_quote, List.getLast?_cons_of_ne_nil symbolic.spelling_ne_nil] at isLast

/-- The arguments behind a mark can stand where the form stands. -/
theorem Row.pair {head : String} {mark : Char} (isMark : (head, mark) ∈ pairMarks)
    (row : Row (pair head first second :: trees)) : Row (first :: second :: trees) := by
  have symbolic : first.Symbolic ∧ second.Symbolic := by
    cases row.symbolic _ List.mem_cons_self with
    | list each => exact ⟨each first (by simp), each second (by simp)⟩
  have separated : first.Separated ∧ second.Separated ∧ Clear first second := by
    cases row.separated _ List.mem_cons_self with
    | list each clear =>
      have isHead : head ∈ ["ui-annotate", "with-meta-sugar"] :=
        List.mem_map_of_mem (f := Prod.fst) isMark
      exact ⟨each first (by simp), each second (by simp), clear head first second rfl isHead⟩
  have behind : Row (second :: trees) := by
    refine .cons symbolic.2 separated.2.1 (row.clear_head ?_) row.tail
    rintro ⟨c, isClosing, isLast⟩
    refine ⟨c, isClosing, ?_⟩
    have nonempty := List.append_ne_nil_of_right_ne_nil first.spelling symbolic.2.spelling_ne_nil
    rwa [spelling_pair isMark, List.getLast?_cons_of_ne_nil nonempty,
      List.getLast?_append_of_ne_nil _ symbolic.2.spelling_ne_nil] at isLast
  refine .cons symbolic.1 separated.1 ?_ behind
  rintro next isNext
  cases isNext
  exact separated.2.2

/-- The members of a list or a vector stand in rows by themselves. -/
theorem Row.member {kind : SequenceKind} (row : Row (.sequence kind items :: trees))
    {item : Tree Float} (member : item ∈ items) : Row [item] := by
  have symbolic := row.symbolic _ List.mem_cons_self
  have separated := row.separated _ List.mem_cons_self
  refine .single ?_ ?_
  · cases symbolic with
    | list each => exact each item member
    | vector each => exact each item member
  · cases separated with
    | list each clear => exact each item member
    | vector each => exact each item member

end Row

end Tree

end SketchForm
