/-
This file says what number a text stands for, and what is left of the text when the number
is written anew.

A spelling is taken apart into digits, digits behind a point and a power of ten, and
stands for a decimal number, which is also the one that is read from it. Writing it anew
looks at the text alone. It takes the zeros off the digits at both ends, which leaves the
digits of the one decimal number of that value whose significand does not end in zero, and
the place it computes for the point is the place of that number. So what is written
depends on the value and on nothing else.
-/
import SketchForm.Proofs.Digits
import SketchForm.Decimal.Respelling

namespace SketchForm

/-! ### Texts of numbers, taken apart -/

/-- A positive number in a text: digits, then a point and digits behind it if there are any, and
then a power of ten if there is one, with its digits and whether it is negative. -/
structure Spelling where
  whole : List Char
  fraction : List Char
  power? : Option (Bool × List Char)
  isWhole : IsDigits whole
  isFraction : ∀ c ∈ fraction, c.isDigit = true
  isPower : ∀ power ∈ power?, IsDigits power.2

namespace Spelling

variable (spelling : Spelling)

/-- The point and the digits behind it. -/
def fractionText : List Char :=
  if spelling.fraction = [] then [] else '.' :: spelling.fraction

/-- The power of ten, with its sign. -/
def powerText : List Char :=
  match spelling.power? with
  | some (negative, digits) => 'e' :: (if negative then '-' else '+') :: digits
  | none => []

/-- The text itself. -/
def text : List Char := spelling.whole ++ (spelling.fractionText ++ spelling.powerText)

/-- The power of ten as an integer. -/
def exponent : Int :=
  match spelling.power? with
  | some (negative, digits) =>
    if negative then -Numeral.digitsValue digits else Numeral.digitsValue digits
  | none => 0

/-- The decimal number that the text stands for. -/
def decimal : Decimal where
  significand := Numeral.digitsValue (spelling.whole ++ spelling.fraction)
  scale := spelling.exponent - spelling.fraction.length

/-- The rational number that the text stands for. -/
def value : ℚ := spelling.decimal.value

/-- Whether there is no zero that could be left out, and no digit of the whole part but one, other
than zero, where there is a power of ten. -/
structure IsLean : Prop where
  whole : spelling.whole = ['0'] ∨ spelling.whole.head? ≠ some '0'
  fraction : spelling.fraction.getLast? ≠ some '0'
  power : ∀ power ∈ spelling.power?,
    (∃ c, spelling.whole = [c] ∧ c ≠ '0') ∧ power.2.head? ≠ some '0'

variable {spelling} in
theorem powerText_of_power {negative : Bool} {digits : List Char}
    (given : spelling.power? = some (negative, digits)) :
    spelling.powerText = 'e' :: (if negative then '-' else '+') :: digits := by
  rw [powerText, given]

variable {spelling} in
theorem exponent_of_power {negative : Bool} {digits : List Char}
    (given : spelling.power? = some (negative, digits)) :
    spelling.exponent =
      if negative then -(Numeral.digitsValue digits : Int) else Numeral.digitsValue digits := by
  rw [exponent, given]

end Spelling

/-! ### Reading a spelling -/

section

variable {accepts : Char → Bool} {front rest : List Char}
variable (within : ∀ c ∈ front, accepts c = true) (stops : ∀ c ∈ rest.head?, accepts c = false)

include within stops

theorem takeWhile_append_of_stops : (front ++ rest).takeWhile accepts = front := by
  rw [List.takeWhile_append_of_pos within]
  cases rest with
  | nil => rw [List.takeWhile_nil, List.append_nil]
  | cons c rest =>
    rw [List.takeWhile_cons_of_neg (ne_true_of_eq_false (stops c rfl)), List.append_nil]

theorem dropWhile_append_of_stops : (front ++ rest).dropWhile accepts = rest := by
  rw [List.dropWhile_append_of_pos within]
  cases rest with
  | nil => rfl
  | cons c rest => rw [List.dropWhile_cons_of_neg (ne_true_of_eq_false (stops c rfl))]

end

namespace Spelling

variable (spelling : Spelling)

theorem exponent?_powerText : Numeral.exponent? spelling.powerText = some spelling.exponent := by
  rw [powerText, exponent]
  cases given : spelling.power? with
  | none => rfl
  | some power =>
    obtain ⟨negative, digits⟩ := power
    have isPower := spelling.isPower _ given
    have all : digits.all Char.isDigit = true := List.all_eq_true.mpr isPower.isDigit
    have nonempty : digits ≠ [] := isPower.nonempty
    cases negative <;> simp [Numeral.exponent?, Numeral.splitSign, all, nonempty]

theorem signedValue_powerText :
    Numeral.signedValue (spelling.powerText.drop 1) = spelling.exponent := by
  rw [powerText, exponent]
  rcases spelling.power? with _ | ⟨negative, digits⟩
  · rfl
  · cases negative <;> rfl

theorem powerText_stops : ∀ c ∈ spelling.powerText.head?, c = 'e' := by
  rw [powerText]
  cases spelling.power? with
  | none => nofun
  | some power => exact fun c isHead => (Option.some.inj isHead).symm

theorem powerText_stops_digits : ∀ c ∈ spelling.powerText.head?, c.isDigit = false := by
  intro c isHead
  rw [spelling.powerText_stops c isHead]
  rfl

theorem fractionText_stops : ∀ c ∈ spelling.fractionText.head?, c = '.' := by
  rw [fractionText]
  split
  next => nofun
  next => exact fun c isHead => (Option.some.inj isHead).symm

theorem fractionText_stops_digits :
    ∀ c ∈ (spelling.fractionText ++ spelling.powerText).head?, c.isDigit = false := by
  rw [fractionText]
  split
  next => exact spelling.powerText_stops_digits
  next =>
    intro c isHead
    rw [← Option.some.inj isHead]
    rfl

/-- A text is read as the decimal number that it stands for. -/
theorem decimal?_text : Numeral.decimal? spelling.text = some spelling.decimal := by
  have isWhole := spelling.isWhole.isDigit
  have nonempty : ∀ others, spelling.whole ++ others ≠ [] := by
    simp [spelling.isWhole.nonempty]
  have read := spelling.exponent?_powerText
  have stops := spelling.powerText_stops_digits
  rw [Numeral.decimal?, text, takeWhile_append_of_stops isWhole spelling.fractionText_stops_digits,
    dropWhile_append_of_stops isWhole spelling.fractionText_stops_digits, decimal, fractionText]
  by_cases none : spelling.fraction = []
  · rw [if_pos none, none, List.nil_append]
    split
    next digits isPoint => exact absurd (spelling.powerText_stops '.' (isPoint ▸ rfl)) (by decide)
    next => simp only [if_neg (nonempty _), read, Option.map_some]
  · rw [if_neg none]
    simp only [List.cons_append, takeWhile_append_of_stops spelling.isFraction stops,
      dropWhile_append_of_stops spelling.isFraction stops, if_neg (nonempty _), read,
      Option.map_some]

/-! ### Writing a spelling anew -/

theorem partition_append {mark : Char} {front rest : List Char} (absent : mark ∉ front)
    (stops : ∀ c ∈ rest.head?, c = mark) :
    Numeral.partition mark (front ++ rest) = (front, rest.drop 1) := by
  have within : ∀ c ∈ front, (c != mark) = true :=
    fun c member => bne_iff_ne.mpr fun same => absent (same ▸ member)
  have stops : ∀ c ∈ rest.head?, (c != mark) = false :=
    fun c isHead => bne_eq_false_iff_eq.mpr (stops c isHead)
  rw [Numeral.partition, takeWhile_append_of_stops within stops,
    dropWhile_append_of_stops within stops]

theorem notMem_of_isDigit {text : List Char} {mark : Char} (isDigit : ∀ c ∈ text, c.isDigit = true)
    (foreign : mark.isDigit = false) : mark ∉ text := by
  intro member
  rw [isDigit mark member] at foreign
  exact Bool.noConfusion foreign

theorem partition_text : Numeral.partition 'e' spelling.text =
    (spelling.whole ++ spelling.fractionText, spelling.powerText.drop 1) := by
  have inWhole : 'e' ∉ spelling.whole := notMem_of_isDigit spelling.isWhole.isDigit rfl
  have inFraction : 'e' ∉ spelling.fraction := notMem_of_isDigit spelling.isFraction rfl
  have absent : 'e' ∉ spelling.whole ++ spelling.fractionText := by
    rw [fractionText]
    split <;> simp [inWhole, inFraction]
  rw [text, ← List.append_assoc, partition_append absent spelling.powerText_stops]

theorem partition_mantissa :
    Numeral.partition '.' (spelling.whole ++ spelling.fractionText) =
      (spelling.whole, spelling.fraction) := by
  have inWhole : '.' ∉ spelling.whole := notMem_of_isDigit spelling.isWhole.isDigit rfl
  rw [partition_append inWhole spelling.fractionText_stops, fractionText]
  split
  next none => rw [none]; rfl
  next => rfl

/-- Taking zeros off in front ends where the first other character is. -/
theorem dropWhile_zeros {rest : List Char} (count : Nat) (head : rest.head? ≠ some '0') :
    (List.replicate count '0' ++ rest).dropWhile (· == '0') = rest := by
  refine dropWhile_append_of_stops (fun c member => ?_) fun c isHead => ?_
  · rw [List.eq_of_mem_replicate member]
    rfl
  · refine beq_eq_false_iff_ne.mpr fun isZero => head ?_
    rw [← isZero]
    exact isHead

theorem exists_zeros_append (text : List Char) :
    ∃ count rest, text = List.replicate count '0' ++ rest ∧ rest.head? ≠ some '0' := by
  induction text with
  | nil => exact ⟨0, [], rfl, nofun⟩
  | cons c text inductionHypothesis =>
    by_cases isZero : c = '0'
    · obtain ⟨count, rest, rfl, head⟩ := inductionHypothesis
      exact ⟨count + 1, rest, by rw [isZero]; rfl, head⟩
    · exact ⟨0, c :: text, rfl, fun same => isZero (Option.some.inj same)⟩

/-- Digits that do not stand for zero, without the zeros at both ends. -/
theorem exists_core {raw : List Char} (isDigit : ∀ c ∈ raw, c.isDigit = true)
    (positive : Numeral.digitsValue raw ≠ 0) :
    ∃ before core after, raw = List.replicate before '0' ++ (core ++ List.replicate after '0') ∧
      IsDigits core ∧ core.head? ≠ some '0' ∧ core.getLast? ≠ some '0' := by
  obtain ⟨before, stripped, rfl, head⟩ := exists_zeros_append raw
  obtain ⟨after, back, reversed, last⟩ := exists_zeros_append stripped.reverse
  obtain rfl : stripped = back.reverse ++ List.replicate after '0' := by
    rw [← List.reverse_replicate, ← List.reverse_append, ← reversed, List.reverse_reverse]
  have nonempty : back.reverse ≠ [] := by
    intro empty
    rw [empty, List.nil_append, Numeral.digitsValue_zeros_append] at positive
    exact positive (Numeral.digitsValue_zeros after)
  rw [List.head?_append_of_ne_nil _ nonempty] at head
  refine ⟨before, back.reverse, after, rfl, ⟨nonempty, fun c member => ?_⟩, head, ?_⟩
  · exact isDigit c (List.mem_append_right _ (List.mem_append_left _ member))
  · rwa [List.getLast?_reverse]

/-- Of all texts of a positive number, the style makes the text of the one decimal number that the
texts stand for, with a significand that does not end in zero. -/
theorem exists_respell_eq (positive : 0 < spelling.value) :
    ∃ decimal : Decimal, decimal.IsReduced ∧ decimal.value = spelling.value ∧
      ∀ style : NumberStyle, style.respell spelling.text = style.numeral decimal := by
  have isDigit : ∀ c ∈ spelling.whole ++ spelling.fraction, c.isDigit = true := by
    intro c member
    rcases List.mem_append.mp member with inWhole | inFraction
    · exact spelling.isWhole.isDigit c inWhole
    · exact spelling.isFraction c inFraction
  have notZero : Numeral.digitsValue (spelling.whole ++ spelling.fraction) ≠ 0 := by
    intro isZero
    rw [value, Decimal.value, decimal, isZero, Nat.cast_zero, zero_mul] at positive
    exact lt_irrefl _ positive
  obtain ⟨before, core, after, raw, isCore, head, last⟩ := exists_core isDigit notZero
  have digits : Decimal.digits (Numeral.digitsValue core) = core :=
    Numeral.digits_digitsValue isCore head
  have length : spelling.whole.length + spelling.fraction.length =
      before + (core.length + after) := by
    have same := congrArg List.length raw
    simpa only [List.length_append, List.length_replicate] using same
  refine ⟨⟨Numeral.digitsValue core, spelling.exponent - spelling.fraction.length + after⟩,
    Numeral.digitsValue_mod_ten_ne isCore last, ?_, fun style => ?_⟩
  · rw [← Decimal.value_mul_pow, ← Numeral.digitsValue_append_zeros,
      ← Numeral.digitsValue_zeros_append before, ← raw]
    rfl
  · have headStripped : (core ++ List.replicate after '0').head? ≠ some '0' := by
      rwa [List.head?_append_of_ne_nil _ isCore.nonempty]
    have lastReversed : core.reverse.head? ≠ some '0' := by rwa [List.head?_reverse]
    rw [NumberStyle.respell, partition_text]
    simp only [partition_mantissa, signedValue_powerText]
    rw [raw, dropWhile_zeros before headStripped, List.reverse_append, List.reverse_replicate,
      dropWhile_zeros after lastReversed, List.reverse_reverse, NumberStyle.numeral, Decimal.point,
      Decimal.digitCount, digits]
    congr 1
    simp only [List.length_append, List.length_replicate]
    omega

end Spelling

end SketchForm
