/-
This file reads back what is written as one word: `nil`, truth values, integers,
keywords and symbols.

No such word holds a space, a bracket or a double quote, so a word ends where the first
of these characters follows, and words with something behind them can be told apart by
themselves. Which scalar a word stands for is seen from the word alone, as long as no
symbol has a name that reads as something else.
-/
import Mathlib.Data.Bool.AllAny
import SketchForm.Printer

namespace SketchForm

namespace Text

/-- The characters that end a word. -/
def delimiters : List Char := [' ', '(', ')', '[', ']', '\x7b', '\x7d', '"']

/-- The marks in front of a keyword and of the short forms. -/
def marks : List Char := ['\'', '#', '^', ':']

/-- Whether a text can be the name of a symbol or the id of a keyword. -/
structure IsName (name : String) : Prop where
  nonempty : name.toList ≠ []
  solid : ∀ c ∈ name.toList, c ∉ delimiters

/-- Whether a word could end in front of these characters. -/
def Ends (rest : List Char) : Prop := ∀ c ∈ rest.head?, c ∈ delimiters

/-- Words without delimiters in them are told apart from what follows them. -/
theorem append_inj_of_solid {word other rest otherRest : List Char}
    (solid : ∀ c ∈ word, c ∉ delimiters) (otherSolid : ∀ c ∈ other, c ∉ delimiters)
    (ends : Ends rest) (otherEnds : Ends otherRest) (same : word ++ rest = other ++ otherRest) :
    word = other ∧ rest = otherRest := by
  induction word generalizing other with
  | nil =>
    cases other with
    | nil => exact ⟨rfl, same⟩
    | cons c more =>
      have isEnd := ends c (congrArg List.head? same)
      exact absurd isEnd (otherSolid c List.mem_cons_self)
  | cons c word inductionHypothesis =>
    cases other with
    | nil =>
      have isEnd := otherEnds c (congrArg List.head? same.symm)
      exact absurd isEnd (solid c List.mem_cons_self)
    | cons mark more =>
      obtain ⟨sameHead, sameTail⟩ := List.cons_eq_cons.mp same
      obtain ⟨sameWord, sameRest⟩ := inductionHypothesis
        (fun c member => solid c (List.mem_cons_of_mem _ member))
        (fun c member => otherSolid c (List.mem_cons_of_mem _ member)) sameTail
      exact ⟨List.cons_eq_cons.mpr ⟨sameHead, sameWord⟩, sameRest⟩

/-! ### The words of integers -/

theorem toList_toString (n : Int) : (toString n).toList =
    if 0 ≤ n then Nat.toDigits 10 n.toNat else '-' :: Nat.toDigits 10 (-n).toNat := by
  rw [Int.toString_eq_repr, Int.repr_eq_if]
  split
  · rw [Nat.toList_repr]
  · rw [String.toList_append, Nat.toList_repr]
    rfl

/-- The characters of an integer are digits and the sign. -/
theorem isDigit_of_mem_toString {n : Int} {c : Char} (member : c ∈ (toString n).toList) :
    c.isDigit = true ∨ c = '-' := by
  rw [toList_toString] at member
  split at member
  · exact .inl (Nat.isDigit_of_mem_toDigits (by decide) (by decide) member)
  · rcases List.mem_cons.mp member with isSign | digit
    · exact .inr isSign
    · exact .inl (Nat.isDigit_of_mem_toDigits (by decide) (by decide) digit)

/-- No integer is written without a digit. -/
theorem exists_isDigit_mem_toString (n : Int) :
    ∃ c ∈ (toString n).toList, c.isDigit = true := by
  have digit : ∀ number : Nat, ∃ c ∈ Nat.toDigits 10 number, c.isDigit = true := by
    intro number
    obtain ⟨c, member⟩ := List.exists_mem_of_ne_nil _ (Nat.toDigits_ne_nil (b := 10) (n := number))
    exact ⟨c, member, Nat.isDigit_of_mem_toDigits (by decide) (by decide) member⟩
  rw [toList_toString]
  split
  · exact digit _
  · obtain ⟨c, member, isDigit⟩ := digit (-n).toNat
    exact ⟨c, List.mem_cons_of_mem _ member, isDigit⟩

theorem toString_ne_nil (n : Int) : (toString n).toList ≠ [] := by
  obtain ⟨c, member, _⟩ := exists_isDigit_mem_toString n
  exact List.ne_nil_of_mem member

theorem notMem_toString (n : Int) {c : Char} (foreign : c.isDigit = false ∧ c ≠ '-') :
    c ∉ (toString n).toList := by
  intro member
  rcases isDigit_of_mem_toString member with digit | isSign
  · rw [foreign.1] at digit
    exact Bool.noConfusion digit
  · exact foreign.2 isSign

theorem toString_ne_of_mem (n : Int) {word : String} {c : Char} (member : c ∈ word.toList)
    (foreign : c.isDigit = false ∧ c ≠ '-') : toString n ≠ word := by
  rintro rfl
  exact notMem_toString n foreign member

/-- The integer that digits stand for, with or without a sign in front of them. -/
def integerOf : List Char → Int
  | '-' :: digits => -(Nat.ofDigitChars 10 digits 0 : Int)
  | digits => (Nat.ofDigitChars 10 digits 0 : Int)

theorem integerOf_toString (n : Int) : integerOf (toString n).toList = n := by
  rw [toList_toString]
  split
  · rw [integerOf, Nat.ofDigitChars_ten_toDigits]
    · omega
    · intro digits signed
      have digit : ('-' : Char).isDigit = true :=
        Nat.isDigit_of_mem_toDigits (by decide) (by decide) (signed ▸ List.mem_cons_self)
      exact absurd digit (by decide)
  · rw [integerOf, Nat.ofDigitChars_ten_toDigits]
    omega

end Text

namespace Scalar

open Text

/-- Whether a scalar is written as one word from which it can be told. -/
inductive IsWord : Scalar → Prop
  | nil : IsWord .nil
  | boolean (value : Bool) : IsWord (.boolean value)
  | integer (value : Int) : IsWord (.integer value)
  | keyword (id : String) (isName : IsName id) : IsWord (.keyword id)
  | symbol (name : String) (isName : IsName name) (unmarked : ∀ c ∈ name.toList.head?, c ∉ marks)
      (notValue : name ∉ ["nil", "true", "false"]) (notInteger : ∀ n : Int, name ≠ toString n) :
      IsWord (.symbol name)

/-- The scalar that a word stands for. -/
def ofWord (word : String) : Scalar :=
  if word = "nil" then .nil
  else if word = "true" then .boolean true
  else if word = "false" then .boolean false
  else if toString (integerOf word.toList) = word then .integer (integerOf word.toList)
  else match word.toList with
    | ':' :: id => .keyword (String.ofList id)
    | _ => .symbol word

theorem ofWord_source {value : Scalar} (isWord : value.IsWord) :
    ofWord (value.source true) = value := by
  cases isWord with
  | nil => exact if_pos rfl
  | boolean value =>
    cases value with
    | true => rfl
    | false => rfl
  | integer n =>
    show ofWord (toString n) = _
    rw [ofWord, integerOf_toString, if_neg, if_neg, if_neg, if_pos rfl]
    · exact toString_ne_of_mem n (c := 'f') (by decide) (by decide)
    · exact toString_ne_of_mem n (c := 't') (by decide) (by decide)
    · exact toString_ne_of_mem n (c := 'n') (by decide) (by decide)
  | keyword id isName =>
    show ofWord (":" ++ id) = _
    have marked : (":" ++ id).toList = ':' :: id.toList := String.toList_append
    have isMark : ':' ∈ (":" ++ id).toList := marked ▸ List.mem_cons_self
    have apart : ∀ word : String, word.toList.head? ≠ some ':' → ":" ++ id ≠ word := by
      rintro word other rfl
      exact other (by rw [marked]; rfl)
    rw [ofWord, if_neg, if_neg, if_neg, if_neg, marked]
    · exact congrArg Scalar.keyword String.ofList_toList
    · exact toString_ne_of_mem _ isMark (by decide)
    · exact apart _ (by decide)
    · exact apart _ (by decide)
    · exact apart _ (by decide)
  | symbol name isName unmarked notValue notInteger =>
    show ofWord name = _
    rw [ofWord, if_neg, if_neg, if_neg, if_neg]
    · split
      · rename_i id marked
        exact absurd (by decide) (unmarked ':' (by rw [marked]; rfl))
      · rfl
    · exact (notInteger _).symm
    · rintro rfl
      exact notValue (by decide)
    · rintro rfl
      exact notValue (by decide)
    · rintro rfl
      exact notValue (by decide)

/-- A word holds no delimiters. -/
theorem solid_of_isWord {value : Scalar} (isWord : value.IsWord) :
    ∀ c ∈ (value.source true).toList, c ∉ delimiters := by
  cases isWord with
  | nil => exact List.all_iff_forall_prop.mp (by decide)
  | boolean value => cases value <;> exact List.all_iff_forall_prop.mp (by decide)
  | integer n =>
    intro c member isDelimiter
    have foreign : ∀ c ∈ delimiters, c.isDigit = false ∧ c ≠ '-' :=
      List.all_iff_forall_prop.mp (by decide)
    exact toString_ne_of_mem n member (foreign c isDelimiter) rfl
  | keyword id isName =>
    have marked : (":" ++ id).toList = ':' :: id.toList := String.toList_append
    show ∀ c ∈ (":" ++ id).toList, c ∉ delimiters
    rw [marked, List.forall_mem_cons]
    exact ⟨by decide, isName.solid⟩
  | symbol name isName unmarked notValue notInteger => exact isName.solid

/-- A word has a first character, and it is no quote. -/
theorem exists_head_of_isWord {value : Scalar} (isWord : value.IsWord) :
    ∃ c, (value.source true).toList.head? = some c ∧ c ∉ delimiters ∧ c ≠ '\'' := by
  have first : ∃ c, (value.source true).toList.head? = some c ∧ c ≠ '\'' := by
    cases isWord with
    | nil => exact ⟨'n', rfl, by decide⟩
    | boolean value =>
      cases value with
      | true => exact ⟨'t', rfl, by decide⟩
      | false => exact ⟨'f', rfl, by decide⟩
    | integer n =>
      obtain ⟨c, rest, spelled⟩ := List.exists_cons_of_ne_nil (toString_ne_nil n)
      have member : c ∈ (toString n).toList := spelled ▸ List.mem_cons_self
      refine ⟨c, congrArg List.head? spelled, ?_⟩
      rintro rfl
      exact toString_ne_of_mem n member (by decide) rfl
    | keyword id isName => exact ⟨':', congrArg List.head? String.toList_append, by decide⟩
    | symbol name isName unmarked notValue notInteger =>
      obtain ⟨c, rest, spelled⟩ := List.exists_cons_of_ne_nil isName.nonempty
      have isHead : name.toList.head? = some c := congrArg List.head? spelled
      refine ⟨c, isHead, ?_⟩
      rintro rfl
      exact unmarked '\'' isHead (by decide)
  obtain ⟨c, isHead, notQuote⟩ := first
  exact ⟨c, isHead, solid_of_isWord isWord c (List.mem_of_head? isHead), notQuote⟩

end Scalar

end SketchForm
