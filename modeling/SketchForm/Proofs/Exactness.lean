/-
This file proves that a printed number is exact, and that it has one text however it was
spelled before.

What is printed is again a spelling, of one of five shapes: with zeros between the point
and the digits, with zeros between the digits and where the point would be, with the point
among the digits, and with a power of ten behind one digit or behind several. In every
shape the digits stay the same and the point stays at its place, so the value can be read
back from it. The shapes are the same in both styles, which differ in where a power of ten
begins and in what they add to a number without fraction.

How a number is spelled in the first place need not be known for that, and any spelling of
its magnitude is as good as another. The text with which a double is inspected is one,
since there are always digits for it, and what is made from that text is what is printed.
-/
import SketchForm.Proofs.Shortest
import SketchForm.Proofs.Spelling

namespace SketchForm

/-! ### The shapes of printed numbers -/

namespace NumberStyle

/-- Whether a style writes no zero that could be left out, and no power of ten that is one. -/
structure IsPlain (style : NumberStyle) : Prop where
  whole : style.whole = ""
  width : style.exponentWidth ≤ 1
  place : style.afterPlace < 1 ∧ 1 ≤ style.uptoPlace

theorem isPlain_printed : printed.IsPlain := ⟨rfl, by decide, by decide⟩

/-- The text is that of a spelling, and it stands for these digits with the point at this place and
has a power of ten just where the style says so. -/
structure Spells (style : NumberStyle) (digits : List Char) (place : Int) (text : List Char)
    (spelling : Spelling) : Prop where
  text : spelling.text = text
  value : spelling.value = Decimal.value ⟨Numeral.digitsValue digits, place - digits.length⟩
  positional : spelling.power? = none ↔ style.afterPlace < place ∧ place ≤ style.uptoPlace
  lean : style.IsPlain → digits.head? ≠ some '0' → digits.getLast? ≠ some '0' → spelling.IsLean

section

variable {style : NumberStyle} {digits : List Char} {place : Int} (isDigits : IsDigits digits)

include isDigits

/-- A number below one, with zeros between the point and its digits. -/
theorem exists_spells_below (inside : style.afterPlace < place ∧ place ≤ style.uptoPlace)
    (below : place ≤ 0) :
    ∃ spelling, Spells style digits place
      ('0' :: '.' :: (List.replicate place.natAbs '0' ++ digits)) spelling := by
  let behind := List.replicate place.natAbs '0' ++ digits
  have isBehind : IsDigits behind := isDigits.zeros_append _
  let spelling : Spelling :=
    { whole := ['0']
      fraction := behind
      power? := none
      isWhole := ⟨List.cons_ne_nil _ _, by simp⟩
      isFraction := isBehind.isDigit
      isPower := nofun }
  refine ⟨spelling, ?_, ?_, iff_of_true rfl inside, fun _ _ last => ⟨.inl rfl, ?_, nofun⟩⟩
  · rw [Spelling.text, Spelling.fractionText, if_neg isBehind.nonempty]
    exact congrArg ('0' :: '.' :: ·) (List.append_nil behind)
  · have significand : Numeral.digitsValue (['0'] ++ behind) = Numeral.digitsValue digits :=
      (Numeral.digitsValue_zeros_append 1 behind).trans (Numeral.digitsValue_zeros_append _ digits)
    have scale : (0 : Int) - behind.length = place - digits.length := by
      rw [List.length_append, List.length_replicate]
      omega
    exact Decimal.value_congr significand scale
  · exact (List.getLast?_append_of_ne_nil _ isDigits.nonempty).trans_ne last

/-- A number with its point behind all its digits, and zeros in between. -/
theorem exists_spells_whole (inside : style.afterPlace < place ∧ place ≤ style.uptoPlace)
    (within : (digits.length : Int) ≤ place) (tail : style.whole = "" ∨ style.whole = ".0") :
    ∃ spelling, Spells style digits place
      (digits ++ List.replicate (place.natAbs - digits.length) '0' ++ style.whole.toList)
      spelling := by
  let count := place.natAbs - digits.length
  let front := digits ++ List.replicate count '0'
  obtain ⟨extra, added⟩ : ∃ extra, style.whole.toList =
      if List.replicate extra '0' = [] then [] else '.' :: List.replicate extra '0' := by
    rcases tail with isEmpty | isZero
    · exact ⟨0, by rw [isEmpty]; rfl⟩
    · exact ⟨1, by rw [isZero]; rfl⟩
  let spelling : Spelling :=
    { whole := front
      fraction := List.replicate extra '0'
      power? := none
      isWhole := isDigits.append_zeros count
      isFraction := fun _ => IsDigits.isDigit_of_mem_zeros
      isPower := nofun }
  refine ⟨spelling, ?_, ?_, iff_of_true rfl inside, fun plain head _ => ⟨.inr ?_, ?_, nofun⟩⟩
  · rw [Spelling.text, Spelling.fractionText, added]
    exact congrArg (front ++ ·) (List.append_nil _)
  · have significand : Numeral.digitsValue (front ++ List.replicate extra '0') =
        Numeral.digitsValue digits * 10 ^ (count + extra) := by
      rw [List.append_assoc, List.replicate_append_replicate, Numeral.digitsValue_append_zeros]
    have scale : (0 : Int) - (List.replicate extra '0').length + (count + extra : Nat) =
        place - digits.length := by
      rw [List.length_replicate]
      omega
    exact (Decimal.value_congr significand rfl).trans
      ((Decimal.value_mul_pow _ _ _).trans (Decimal.value_congr rfl scale))
  · rwa [List.head?_append_of_ne_nil _ isDigits.nonempty]
  · have nothing : List.replicate extra '0' = [] := by
      by_contra something
      rw [plain.whole, if_neg something] at added
      cases added
    show (List.replicate extra '0').getLast? ≠ some '0'
    rw [nothing, List.getLast?_nil]
    exact (Option.some_ne_none '0').symm

/-- A number with its point among its digits. -/
theorem exists_spells_split (inside : style.afterPlace < place ∧ place ≤ style.uptoPlace)
    (above : 0 < place) (within : place.natAbs < digits.length) :
    ∃ spelling, Spells style digits place
      (digits.take place.natAbs ++ '.' :: digits.drop place.natAbs) spelling := by
  have front : digits.take place.natAbs ≠ [] := by
    rw [Ne, List.take_eq_nil_iff]
    rintro (none | empty)
    · omega
    · exact isDigits.nonempty empty
  have back : digits.drop place.natAbs ≠ [] := by
    rw [Ne, List.drop_eq_nil_iff]
    omega
  let spelling : Spelling :=
    { whole := digits.take place.natAbs
      fraction := digits.drop place.natAbs
      power? := none
      isWhole := ⟨front, fun c member => isDigits.isDigit c (List.mem_of_mem_take member)⟩
      isFraction := fun c member => isDigits.isDigit c (List.mem_of_mem_drop member)
      isPower := nofun }
  refine ⟨spelling, ?_, ?_, iff_of_true rfl inside, fun _ head last => ⟨.inr ?_, ?_, nofun⟩⟩
  · rw [Spelling.text, Spelling.fractionText, if_neg back]
    exact congrArg (digits.take place.natAbs ++ '.' :: ·) (List.append_nil _)
  · have significand := congrArg Numeral.digitsValue (List.take_append_drop place.natAbs digits)
    have scale : (0 : Int) - (digits.drop place.natAbs).length = place - digits.length := by
      rw [List.length_drop]
      omega
    exact Decimal.value_congr significand scale
  · rwa [← List.head?_append_of_ne_nil _ front, List.take_append_drop]
  · rwa [← List.getLast?_append_of_ne_nil _ back, List.take_append_drop]

end

/-- A number with a power of ten. -/
theorem exists_spells_power {style : NumberStyle} {first : Char} {rest : List Char} {place : Int}
    (isDigits : IsDigits (first :: rest))
    (outside : ¬ (style.afterPlace < place ∧ place ≤ style.uptoPlace)) :
    ∃ spelling, Spells style (first :: rest) place
      (first :: ((if rest = [] then [] else '.' :: rest) ++ style.exponentText (place - 1)))
      spelling := by
  let shown := Decimal.digits (place - 1).natAbs
  let power := List.replicate (style.exponentWidth - shown.length) '0' ++ shown
  have isPower : IsDigits power := (Decimal.isDigits_digits _).zeros_append _
  let spelling : Spelling :=
    { whole := [first]
      fraction := rest
      power? := some (decide (place - 1 < 0), power)
      isWhole := ⟨List.cons_ne_nil _ _, by simpa using isDigits.isDigit first (by simp)⟩
      isFraction := fun c member => isDigits.isDigit c (List.mem_cons_of_mem _ member)
      isPower := by
        rintro _ ⟨⟩
        exact isPower }
  have given : spelling.power? = some (decide (place - 1 < 0), power) := rfl
  have exponent : spelling.exponent = place - 1 := by
    have magnitude : Numeral.digitsValue power = (place - 1).natAbs :=
      (Numeral.digitsValue_zeros_append _ shown).trans (Numeral.digitsValue_digits _)
    rw [Spelling.exponent_of_power given, magnitude]
    simp only [decide_eq_true_iff]
    omega
  refine ⟨spelling, ?_, ?_, iff_of_false nofun outside, fun plain head last => ⟨.inr head, ?_, ?_⟩⟩
  · rw [Spelling.text, Spelling.powerText_of_power given, exponentText]
    simp only [decide_eq_true_iff]
    rfl
  · have scale : place - 1 - (rest.length : Int) = place - (first :: rest).length := by
      rw [List.length_cons]
      omega
    rw [Spelling.value, Spelling.decimal, exponent]
    exact Decimal.value_congr rfl scale
  · intro isZero
    have inRest : rest.getLast? = some '0' := isZero
    rw [List.getLast?_cons, inRest] at last
    exact last rfl
  · rintro _ ⟨⟩
    refine ⟨⟨first, rfl, fun isZero => head (congrArg some isZero)⟩, ?_⟩
    have notOne : (place - 1).natAbs ≠ 0 := by
      intro isOne
      have inside := plain.place
      obtain rfl : place = 1 := by omega
      exact outside inside
    have full : style.exponentWidth - shown.length = 0 :=
      Nat.sub_eq_zero_of_le (plain.width.trans (Decimal.digitCount_pos _))
    show (List.replicate (style.exponentWidth - shown.length) '0' ++ shown).head? ≠ some '0'
    rw [full]
    exact Decimal.head?_digits_ne notOne

/-- Every text in which digits are laid out is a spelling that stands for them. -/
theorem exists_spells_layOut (style : NumberStyle) (tail : style.whole = "" ∨ style.whole = ".0")
    {digits : List Char} (isDigits : IsDigits digits) (place : Int) :
    ∃ spelling, Spells style digits place (style.layOut digits place) spelling := by
  rw [layOut]
  split
  next inside =>
    split
    next below => exact exists_spells_below isDigits inside below
    next above =>
      split
      next within => exact exists_spells_whole isDigits inside (by omega) tail
      next apart => exact exists_spells_split isDigits inside (by omega) (by omega)
  next outside =>
    obtain ⟨first, rest, rfl⟩ := List.exists_cons_of_ne_nil isDigits.nonempty
    have powered := exists_spells_power isDigits outside
    cases rest with
    | nil => exact powered
    | cons second rest => exact powered

/-- A decimal number is written as a spelling that stands for it. -/
theorem exists_spells_numeral (style : NumberStyle)
    (tail : style.whole = "" ∨ style.whole = ".0") (decimal : Decimal) :
    ∃ spelling : Spelling, spelling.text = style.numeral decimal ∧
      spelling.value = decimal.value ∧
      (spelling.power? = none ↔
        style.afterPlace < decimal.point ∧ decimal.point ≤ style.uptoPlace) ∧
      (style.IsPlain → decimal.IsReduced → spelling.IsLean) := by
  obtain ⟨spelling, spells⟩ := exists_spells_layOut style tail
    (Decimal.isDigits_digits decimal.significand) decimal.point
  refine ⟨spelling, spells.text, ?_, spells.positional, fun plain reduced => ?_⟩
  · rw [spells.value, Numeral.digitsValue_digits]
    refine Decimal.value_congr rfl ?_
    rw [Decimal.point, Decimal.digitCount]
    omega
  · exact spells.lean plain (Decimal.head?_digits_ne reduced.ne_zero)
      (Decimal.getLast?_digits_ne reduced)

/-- A spelling of a positive decimal number in a plain style has a power of ten outside of the range
that the style writes without one. -/
theorem exists_lean_numeral {style : NumberStyle} (plain : style.IsPlain) {decimal : Decimal}
    (reduced : decimal.IsReduced) :
    ∃ spelling : Spelling, spelling.text = style.numeral decimal ∧
      spelling.value = decimal.value ∧ spelling.IsLean ∧
      (spelling.power? = none ↔
        (10 : ℚ) ^ style.afterPlace ≤ decimal.value ∧ decimal.value < 10 ^ style.uptoPlace) := by
  obtain ⟨spelling, text, value, positional, lean⟩ :=
    exists_spells_numeral style (.inl plain.whole) decimal
  refine ⟨spelling, text, value, lean plain reduced, positional.trans (and_congr ?_ ?_)⟩
  · exact Decimal.lt_point_iff reduced.ne_zero style.afterPlace
  · rw [← not_lt, Decimal.lt_point_iff reduced.ne_zero, not_le]

/-! ### Numbers however they are spelled -/

end NumberStyle

namespace Spelling

/-- What a spelling stands for can be told from its text. -/
theorem value_eq_of_text_eq {spelling other : Spelling} (same : spelling.text = other.text) :
    spelling.value = other.value := by
  have read := spelling.decimal?_text
  rw [same, other.decimal?_text] at read
  exact congrArg Decimal.value (Option.some.inj read).symm

/-- The text of a positive number has no sign. -/
theorem head?_text_ne (spelling : Spelling) : spelling.text.head? ≠ some '-' := by
  obtain ⟨c, rest, whole⟩ := List.exists_cons_of_ne_nil spelling.isWhole.nonempty
  have isDigit : c.isDigit = true :=
    spelling.isWhole.isDigit c (whole ▸ List.mem_cons_self)
  rw [text, whole]
  intro isSign
  rw [Option.some.inj isSign] at isDigit
  exact absurd isDigit (by decide)

theorem head?_respell_ne {spelling : Spelling} (positive : 0 < spelling.value) :
    (NumberStyle.printed.respell spelling.text).head? ≠ some '-' := by
  obtain ⟨decimal, reduced, _, written⟩ := spelling.exists_respell_eq positive
  obtain ⟨numeral, text, _⟩ :=
    NumberStyle.exists_lean_numeral NumberStyle.isPlain_printed reduced
  rw [written, ← text]
  exact numeral.head?_text_ne

/-- Texts of positive numbers are written alike exactly if the numbers are the same. -/
theorem respell_eq_iff {spelling other : Spelling} (positive : 0 < spelling.value)
    (otherPositive : 0 < other.value) :
    NumberStyle.printed.respell spelling.text = NumberStyle.printed.respell other.text ↔
      spelling.value = other.value := by
  obtain ⟨decimal, reduced, value, written⟩ := spelling.exists_respell_eq positive
  obtain ⟨otherDecimal, otherReduced, otherValue, otherWritten⟩ :=
    other.exists_respell_eq otherPositive
  rw [written, otherWritten, ← value, ← otherValue]
  constructor
  · intro same
    obtain ⟨numeral, text, numeralValue, _⟩ :=
      NumberStyle.exists_lean_numeral NumberStyle.isPlain_printed reduced
    obtain ⟨otherNumeral, otherText, otherNumeralValue, _⟩ :=
      NumberStyle.exists_lean_numeral NumberStyle.isPlain_printed otherReduced
    rw [← numeralValue, ← otherNumeralValue]
    exact value_eq_of_text_eq (text.trans (same.trans otherText.symm))
  · intro same
    rw [reduced.eq_of_value_eq otherReduced same]

end Spelling

/-- Texts without a sign can be told apart with a minus in front of them where there is one. -/
theorem signed_eq_iff {negative otherNegative : Prop} [Decidable negative]
    [Decidable otherNegative] {text other : List Char} (head : text.head? ≠ some '-')
    (otherHead : other.head? ≠ some '-') :
    (if negative then '-' :: text else text) = (if otherNegative then '-' :: other else other) ↔
      (negative ↔ otherNegative) ∧ text = other := by
  by_cases isNegative : negative <;> by_cases isOther : otherNegative
  · simp [isNegative, isOther]
  · rw [if_pos isNegative, if_neg isOther]
    refine iff_of_false (fun same => otherHead (same ▸ rfl)) ?_
    exact fun both => isOther (both.1.mp isNegative)
  · rw [if_neg isNegative, if_pos isOther]
    refine iff_of_false (fun same => head (same ▸ rfl)) ?_
    exact fun both => isNegative (both.1.mpr isOther)
  · simp [isNegative, isOther]

/-- The number that was taken apart, zero where it is none. -/
def Reading.value : Reading → ℚ
  | .finite negative mantissa exponent =>
    (if negative then -1 else 1) * (mantissa * 2 ^ exponent)
  | .nan | .infinite _ => 0

/-- The mantissa of a double has at most fifty-three bits. -/
theorem Binary64.mantissa_lt_of_read {x : Float} {negative : Bool} {mantissa : Nat}
    {exponent : Int} (taken : Binary64.read x = .finite negative mantissa exponent) :
    mantissa < 2 ^ 53 := by
  have fraction := Nat.mod_lt x.toBits.toNat (Nat.pow_pos (by decide) : 0 < 2 ^ 52)
  simp only [Binary64.read, Binary64.readBits, Nat.pow_eq] at taken
  split at taken
  next => split at taken <;> cases taken
  next =>
    split at taken
    next => injection taken; omega
    next => injection taken; omega

theorem Reading.value_finite_neg_iff {negative : Bool} {mantissa : Nat} {exponent : Int}
    (nonzero : mantissa ≠ 0) :
    (Reading.finite negative mantissa exponent).value < 0 ↔ negative = true := by
  have positive : (0 : ℚ) < mantissa * 2 ^ exponent := by positivity
  cases negative with
  | true => simpa [Reading.value] using positive
  | false => simpa [Reading.value] using positive.le

namespace NumberStyle

/-- A number other than zero whose magnitude is spelled in this way. -/
inductive IsSpelled (spell : Nat → Int → List Char) : Reading → Spelling → Prop
  | intro {negative : Bool} {mantissa : Nat} {exponent : Int} {spelling : Spelling}
      (nonzero : mantissa ≠ 0) (spelled : spell mantissa exponent = spelling.text)
      (positive : 0 < spelling.value) :
      IsSpelled spell (.finite negative mantissa exponent) spelling

theorem IsSpelled.positive {spell : Nat → Int → List Char} {reading : Reading}
    {spelling : Spelling} (isSpelled : IsSpelled spell reading spelling) : 0 < spelling.value := by
  obtain ⟨_, _, positive⟩ := isSpelled
  exact positive

theorem writeSpelled_eq (style : NumberStyle) {spell : Nat → Int → List Char} {reading : Reading}
    {spelling : Spelling} (isSpelled : IsSpelled spell reading spelling) :
    style.writeSpelled spell reading = String.ofList
      (if reading.value < 0 then '-' :: style.respell spelling.text
        else style.respell spelling.text) := by
  obtain ⟨nonzero, spelled, _⟩ := isSpelled
  rw [writeSpelled, writeWith, if_neg nonzero, spelled]
  exact congrArg String.ofList (if_congr (Reading.value_finite_neg_iff nonzero).symm rfl rfl)

/-! ### Numbers spelled as they are inspected -/

section

variable {negative : Bool} {mantissa : Nat} {exponent : Int}
variable (nonzero : mantissa ≠ 0) (bounded : mantissa < 2 ^ 53)

include nonzero bounded

/-- A double other than zero is inspected as a spelling of a positive number. -/
theorem exists_isSpelled_magnitude :
    ∃ spelling : Spelling, spelling.value = (Decimal.shortest mantissa exponent).value ∧
      IsSpelled inspected.magnitude (.finite negative mantissa exponent) spelling := by
  obtain ⟨spelling, text, value, _⟩ :=
    exists_spells_numeral inspected (.inr rfl) (Decimal.shortest mantissa exponent)
  have reduced := Decimal.isReduced_shortest nonzero bounded exponent
  refine ⟨spelling, value, .intro nonzero text.symm ?_⟩
  rw [value]
  exact reduced.value_pos

/-- What is printed of a double is made from the text with which it is inspected. -/
theorem writeSpelled_magnitude :
    printed.writeSpelled inspected.magnitude (.finite negative mantissa exponent) =
      printed.writeReading (.finite negative mantissa exponent) := by
  obtain ⟨spelling, value, _, spelled, positive⟩ :=
    @exists_isSpelled_magnitude negative _ exponent nonzero bounded
  obtain ⟨decimal, reduced, decimalValue, written⟩ := spelling.exists_respell_eq positive
  obtain rfl := reduced.eq_of_value_eq (Decimal.isReduced_shortest nonzero bounded exponent)
    (decimalValue.trans value)
  rw [writeSpelled, writeReading, writeWith, writeWith, if_neg nonzero, if_neg nonzero]
  simp only [spelled, written]
  rfl

end

/-- However the magnitude of a double other than zero is spelled, the double is printed with a minus
exactly if it is negative and then as the number that the spelling stands for, which is read back
exactly. There is no power of ten from a millionth up to ten to the twenty-first, and no zero that
could be left out. Two doubles are printed alike exactly if their signs and these numbers are the
same. The text that is printed is the one made from the text with which a double is inspected, and
that is such a spelling. -/
theorem writeSpelled_exact {spell : Nat → Int → List Char} {reading : Reading}
    {spelling : Spelling} (isSpelled : IsSpelled spell reading spelling) :
    (∃ numeral : Spelling,
      printed.writeSpelled spell reading = String.ofList
        (if reading.value < 0 then '-' :: numeral.text else numeral.text) ∧
      numeral.value = spelling.value ∧
      Numeral.decimal? numeral.text = some numeral.decimal ∧
      (numeral.power? = none ↔
        (10 : ℚ) ^ (-6 : Int) ≤ spelling.value ∧ spelling.value < 10 ^ (21 : Int)) ∧
      numeral.IsLean) ∧
    (∀ otherSpell otherReading other, IsSpelled otherSpell otherReading other →
      (printed.writeSpelled spell reading = printed.writeSpelled otherSpell otherReading ↔
        (reading.value < 0 ↔ otherReading.value < 0) ∧ spelling.value = other.value)) ∧
    (∀ x, Binary64.read x = reading →
      printed.write x = printed.writeSpelled inspected.magnitude reading ∧
        ∃ own, IsSpelled inspected.magnitude reading own) := by
  have written := writeSpelled_eq printed isSpelled
  refine ⟨?_, ?_, ?_⟩
  · obtain ⟨decimal, reduced, value, respelled⟩ :=
      spelling.exists_respell_eq isSpelled.positive
    obtain ⟨numeral, text, numeralValue, lean, positional⟩ :=
      exists_lean_numeral isPlain_printed reduced
    rw [respelled, ← text] at written
    rw [value] at positional numeralValue
    exact ⟨numeral, written, numeralValue, numeral.decimal?_text, positional, lean⟩
  · intro otherSpell otherReading other otherSpelled
    have head := Spelling.head?_respell_ne isSpelled.positive
    have otherHead := Spelling.head?_respell_ne otherSpelled.positive
    rw [written, writeSpelled_eq printed otherSpelled, String.ofList_inj,
      signed_eq_iff head otherHead,
      Spelling.respell_eq_iff isSpelled.positive otherSpelled.positive]
  · intro x taken
    obtain ⟨nonzero, _, _⟩ := isSpelled
    have bounded := Binary64.mantissa_lt_of_read taken
    obtain ⟨own, _, ownSpelled⟩ := exists_isSpelled_magnitude nonzero bounded
    rw [write, taken]
    exact ⟨(writeSpelled_magnitude nonzero bounded).symm, own, ownSpelled⟩

/-- Ten to the twenty-first with a power of ten. -/
def shortSpelling : Spelling where
  whole := ['1']
  fraction := []
  power? := some (false, ['2', '1'])
  isWhole := ⟨by decide, List.all_eq_true.mp (by decide)⟩
  isFraction := nofun
  isPower := by
    rintro _ ⟨⟩
    exact ⟨by decide, List.all_eq_true.mp (by decide)⟩

/-- The same number without one. -/
def longSpelling : Spelling where
  whole := "1000000000000000000000".toList
  fraction := ['0']
  power? := none
  isWhole := ⟨by decide, List.all_eq_true.mp (by decide)⟩
  isFraction := List.all_eq_true.mp (by decide)
  isPower := nofun

theorem writeSpelled_exact_longSpelling :
    let reading := Reading.finite true 7629394531250000 17
    inspected.magnitude 7629394531250000 17 = shortSpelling.text ∧
      printed.writeSpelled inspected.magnitude reading =
        printed.writeSpelled (fun _ _ => longSpelling.text) reading ∧
      ∃ numeral : Spelling, numeral.value = 10 ^ 21 ∧ numeral.power? ≠ none ∧
        printed.writeReading reading = String.ofList ('-' :: numeral.text) := by
  intro reading
  have shortValue : shortSpelling.value = 10 ^ 21 := by
    have decimal : shortSpelling.decimal = ⟨1, 21⟩ := by decide
    norm_num [Spelling.value, decimal, Decimal.value]
  have longValue : longSpelling.value = 10 ^ 21 := by
    have decimal : longSpelling.decimal = ⟨10 ^ 22, -1⟩ := by decide +kernel
    norm_num [Spelling.value, decimal, Decimal.value]
  have spelled : inspected.magnitude 7629394531250000 17 = shortSpelling.text := by
    decide +kernel
  have short : IsSpelled inspected.magnitude reading shortSpelling :=
    .intro (by decide) spelled (by rw [shortValue]; norm_num)
  have long : IsSpelled (fun _ _ => longSpelling.text) reading longSpelling :=
    .intro (by decide) rfl (by rw [longValue]; norm_num)
  obtain ⟨⟨numeral, written, value, _, positional, _⟩, alike, _⟩ := writeSpelled_exact short
  have negative : reading.value < 0 := (Reading.value_finite_neg_iff (by decide)).mpr rfl
  rw [shortValue] at positional value
  refine ⟨spelled, (alike _ _ _ long).mpr ⟨Iff.rfl, shortValue.trans longValue.symm⟩, numeral,
    value, fun none => ?_, ?_⟩
  · exact absurd (positional.mp none).2 (by norm_num)
  · rw [← writeSpelled_magnitude (by decide) (by decide), written, if_pos negative]

end NumberStyle

end SketchForm
