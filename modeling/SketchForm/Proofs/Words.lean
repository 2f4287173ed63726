/-
This file cuts texts into words.

Words are what stands between spaces, and empty pieces are no words. Joining texts by
spaces therefore joins their words, whether some of the texts are empty or not, which
is what makes words the right view of a drawing's text: a part that has no text leaves
a separator behind, and no word. A text without a space that is not empty is one word,
and the texts of numbers are of that kind.
-/
import SketchForm.Decimal.Layout

namespace SketchForm

namespace Text

/-! ### The words of a text -/

/-- The words of a text: the pieces between spaces that are not empty. -/
def words (text : String) : List String :=
  ((text.toList.splitOn ' ').filter (· ≠ [])).map String.ofList

@[simp] theorem words_empty : words "" = [] := rfl

/-- A space ends one word and begins another. -/
theorem words_append_space (left right : String) :
    words (left ++ " " ++ right) = words left ++ words right := by
  have spaced : (left ++ " " ++ right).toList = left.toList ++ ' ' :: right.toList := by
    rw [String.toList_append, String.toList_append, List.append_assoc]
    rfl
  rw [words, spaced, List.splitOn_append_cons_self, List.filter_append, List.map_append]
  rfl

/-- Joining texts by spaces joins their words. -/
theorem words_intercalate (texts : List String) :
    words (" ".intercalate texts) = texts.flatMap words := by
  induction texts with
  | nil => rfl
  | cons first rest inductionHypothesis =>
    cases rest with
    | nil => rw [String.intercalate_singleton, List.flatMap_singleton]
    | cons second others =>
      rw [String.intercalate_cons_cons, words_append_space, inductionHypothesis]
      rfl

/-- A text that is not empty and holds no space is a word. -/
theorem words_of_solid {text : String} (nonempty : text ≠ "") (solid : ' ' ∉ text.toList) :
    words text = [text] := by
  have kept : text.toList ≠ [] := fun empty => nonempty (String.toList_eq_nil_iff.mp empty)
  rw [words, List.splitOn_eq_singleton solid, List.filter_cons_of_pos (by simpa using kept)]
  simp

end Text

/-! ### The characters of numbers -/

/-- The characters that the text of a number can hold: digits, signs, a point, and the letters of
a power of ten and of the values without digits. -/
def isNumeralChar (c : Char) : Bool := c.isAlphanum || c == '-' || c == '+' || c == '.'

namespace NumberStyle

theorem isNumeralChar_of_mem_digits {n : Nat} {c : Char} (member : c ∈ Decimal.digits n) :
    isNumeralChar c := by
  have digit : c.isDigit := Nat.isDigit_of_mem_toDigits (by decide) (by decide) member
  simp [isNumeralChar, Char.isAlphanum, digit]

theorem isNumeralChar_of_mem_exponentText (style : NumberStyle) (exponent : Int) {c : Char}
    (member : c ∈ style.exponentText exponent) : isNumeralChar c := by
  simp only [exponentText, List.mem_cons, List.mem_append, List.mem_replicate] at member
  rcases member with rfl | rfl | ⟨_, rfl⟩ | digit
  · rfl
  · split <;> rfl
  · rfl
  · exact isNumeralChar_of_mem_digits digit

/-- The text of a positive number in printed style holds such characters only. -/
theorem isNumeralChar_of_mem_numeral (decimal : Decimal) {c : Char}
    (member : c ∈ printed.numeral decimal) : isNumeralChar c := by
  have digits : ∀ c ∈ Decimal.digits decimal.significand, isNumeralChar c := fun _ =>
    isNumeralChar_of_mem_digits
  simp only [numeral, layOut] at member
  split at member
  · split at member
    · simp only [List.mem_cons, List.mem_append, List.mem_replicate] at member
      rcases member with rfl | rfl | ⟨_, rfl⟩ | digit
      · rfl
      · rfl
      · rfl
      · exact digits c digit
    · split at member
      · simp only [printed, List.mem_append, List.mem_replicate] at member
        rcases member with (digit | ⟨_, rfl⟩) | whole
        · exact digits c digit
        · rfl
        · exact absurd whole (by simp)
      · simp only [List.mem_append, List.mem_cons] at member
        rcases member with digit | rfl | digit
        · exact digits c (List.mem_of_mem_take digit)
        · rfl
        · exact digits c (List.mem_of_mem_drop digit)
  · have power : ∀ c ∈ printed.exponentText (decimal.point - 1), isNumeralChar c := fun _ =>
      isNumeralChar_of_mem_exponentText printed _
    generalize Decimal.digits decimal.significand = shown at member digits
    match shown, member with
    | [], member => exact power c member
    | [first], member =>
      rcases List.mem_cons.mp member with rfl | inPower
      · exact digits _ List.mem_cons_self
      · exact power c inPower
    | first :: second :: rest, member =>
      simp only [List.mem_cons, List.mem_append] at member digits
      rcases member with rfl | rfl | (rfl | digit) | inPower
      · exact digits _ (Or.inl rfl)
      · rfl
      · exact digits _ (Or.inr (Or.inl rfl))
      · exact digits _ (Or.inr (Or.inr digit))
      · exact power c inPower

/-- The text of any double in printed style holds such characters only. -/
theorem isNumeralChar_of_mem_write (x : Float) {c : Char}
    (member : c ∈ (printed.write x).toList) : isNumeralChar c := by
  have among : ∀ text : String, text.toList.all isNumeralChar = true → c ∈ text.toList →
      isNumeralChar c := fun text each => List.all_eq_true.mp each c
  rw [write] at member
  cases taken : Binary64.read x with
  | nan =>
    rw [taken] at member
    exact among "NaN" (by decide) member
  | infinite negative =>
    rw [taken] at member
    cases negative with
    | false => exact among "Infinity" (by decide) member
    | true => exact among ("-" ++ "Infinity") (by decide) member
  | finite negative mantissa exponent =>
    simp only [taken, writeReading, writeWith] at member
    split at member
    · have zero : c ∈ "0".toList := by cases negative <;> exact member
      exact among "0" (by decide) zero
    · rw [String.toList_ofList] at member
      cases negative with
      | false => exact isNumeralChar_of_mem_numeral _ member
      | true =>
        rcases List.mem_cons.mp member with rfl | inNumeral
        · rfl
        · exact isNumeralChar_of_mem_numeral _ inNumeral

theorem numeral_ne_nil (style : NumberStyle) (decimal : Decimal) : style.numeral decimal ≠ [] := by
  have digits : Decimal.digits decimal.significand ≠ [] := Nat.toDigits_ne_nil
  simp only [numeral, layOut]
  split
  · split
    · exact List.cons_ne_nil _ _
    · split
      · simp [digits]
      · simp
  · split
    · exact List.cons_ne_nil _ _
    · exact List.cons_ne_nil _ _
    · exact List.cons_ne_nil _ _

/-- No number is written as nothing. -/
theorem write_ne_empty (x : Float) : printed.write x ≠ "" := by
  rw [write]
  cases Binary64.read x with
  | nan => decide
  | infinite negative => cases negative <;> decide
  | finite negative mantissa exponent =>
    simp only [writeReading, writeWith]
    split
    · cases negative <;> decide
    · intro empty
      have nothing := congrArg String.toList empty
      rw [String.toList_ofList] at nothing
      cases negative with
      | false => exact numeral_ne_nil _ _ nothing
      | true => exact List.cons_ne_nil _ _ nothing

theorem notMem_write_of_not_isNumeralChar (x : Float) {c : Char}
    (foreign : isNumeralChar c = false) :
    c ∉ (printed.write x).toList := by
  intro member
  rw [isNumeralChar_of_mem_write x member] at foreign
  exact Bool.noConfusion foreign

/-! ### The digits of numbers -/

/-- However digits are laid out, all of them are there. -/
theorem mem_layOut_of_mem (style : NumberStyle) {digits : List Char} (place : Int) {c : Char}
    (member : c ∈ digits) : c ∈ style.layOut digits place := by
  have cut : c ∈ digits.take place.natAbs ∨ c ∈ digits.drop place.natAbs := by
    rw [← List.mem_append, List.take_append_drop]
    exact member
  simp only [layOut]
  split
  · split
    · simp [member]
    · split
      · simp [member]
      · rw [List.mem_append, List.mem_cons]
        exact cut.imp_right Or.inr
  · match digits, member with
    | [first], member =>
      obtain rfl := List.mem_singleton.mp member
      exact List.mem_cons_self
    | first :: second :: rest, member =>
      rcases List.mem_cons.mp member with rfl | later
      · exact List.mem_cons_self
      · exact List.mem_cons_of_mem _ (List.mem_cons_of_mem _ (List.mem_append_left _ later))

/-- The text of a finite number has a digit in it. -/
theorem exists_isDigit_mem_write {x : Float} {negative : Bool} {mantissa : Nat} {exponent : Int}
    (finite : Binary64.read x = .finite negative mantissa exponent) :
    ∃ c ∈ (printed.write x).toList, c.isDigit = true := by
  simp only [write, finite, writeReading, writeWith]
  split
  · exact ⟨'0', by cases negative <;> decide, rfl⟩
  · have nonempty : Decimal.digits (Decimal.shortest mantissa exponent).significand ≠ [] :=
      Nat.toDigits_ne_nil
    obtain ⟨c, among⟩ := List.exists_mem_of_ne_nil _ nonempty
    have shown : c ∈ printed.magnitude mantissa exponent := printed.mem_layOut_of_mem _ among
    refine ⟨c, ?_, Nat.isDigit_of_mem_toDigits (by decide) (by decide) among⟩
    rw [String.toList_ofList]
    cases negative with
    | false => exact shown
    | true => exact List.mem_cons_of_mem _ shown

end NumberStyle

end SketchForm
