/-
This file proves that the text of a path can be read back.

The tokens of a path are keywords, numbers and points, and each leaves one word. The word
of a keyword has no digit in it, that of a finite number has one, and only that of a point
has a comma, so the word says what the token was. A keyword is its word, a number is known
as far as its text goes, and the comma parts the two numbers of a point. The words of a
path are cut at the spaces, so paths with one text have the same tokens, one by one.
-/
import Mathlib.Data.List.Forall2
import SketchForm.Proofs.Words
import SketchForm.Proofs.SingleWord
import SketchForm.Proofs.Traversal
import SketchForm.Path.Text

namespace SketchForm

namespace Tree

/-! ### Tokens that can be read back -/

/-- Whether a value is a finite number. -/
inductive IsFinite : Tree Float → Prop
  | integer (n : Int) : IsFinite (.scalar (.integer n))
  | real {x : Float} {negative : Bool} {mantissa : Nat} {exponent : Int}
      (finite : Binary64.read x = .finite negative mantissa exponent) : IsFinite (.real x)

/-- Whether a value is a token that leaves a word of its own: a keyword of letters, or in general
without spaces, commas and digits, a finite number or a point of two finite numbers. -/
inductive IsToken : Tree Float → Prop
  | keyword {id : String} (nonempty : id ≠ "")
      (plain : ∀ c ∈ id.toList, c ≠ ' ' ∧ c ≠ ',' ∧ c.isDigit = false) :
      IsToken (.scalar (.keyword id))
  | number {value : Tree Float} (finite : value.IsFinite) : IsToken value
  | point {value x y : Tree Float} (members : value.members? = some [x, y]) (xFinite : x.IsFinite)
      (yFinite : y.IsFinite) : IsToken value

/-- Whether two tokens are equal as far as their words go: keywords with one id, numbers with one
text, or points whose numbers have the same texts. -/
inductive Agree : Tree Float → Tree Float → Prop
  | keyword (id : String) : Agree (.scalar (.keyword id)) (.scalar (.keyword id))
  | number {value other : Tree Float} (finite : value.IsFinite) (otherFinite : other.IsFinite)
      (same : value.formatNumber = other.formatNumber) : Agree value other
  | point {value other x y otherX otherY : Tree Float} (members : value.members? = some [x, y])
      (otherMembers : other.members? = some [otherX, otherY])
      (sameX : x.formatNumber = otherX.formatNumber)
      (sameY : y.formatNumber = otherY.formatNumber) : Agree value other

/-! ### The words of tokens -/

section Words

variable {value other x y : Tree Float}

theorem formatNumber_of_isFinite (finite : value.IsFinite) :
    value.formatNumber = .ok value.tokenText := by
  cases finite <;> rfl

/-- Numbers have one text exactly if they leave one word. -/
theorem formatNumber_eq_iff (finite : value.IsFinite) (otherFinite : other.IsFinite) :
    value.formatNumber = other.formatNumber ↔ value.tokenText = other.tokenText := by
  rw [formatNumber_of_isFinite finite, formatNumber_of_isFinite otherFinite]
  exact ⟨Except.ok.inj, congrArg Except.ok⟩

theorem tokenText_point (members : value.members? = some [x, y]) :
    value.tokenText = x.tokenText ++ "," ++ y.tokenText := by
  have joined : ∀ first second, ",".intercalate [first, second] = first ++ "," ++ second := by
    intro first second
    rw [String.intercalate_cons_cons, String.intercalate_singleton]
  cases value with
  | sequence kind items =>
    cases members
    exact joined _ _
  | array values =>
    match values, members with
    | [_, _], rfl => exact joined _ _
  | _ => cases members

/-- The word of a finite number has a digit in it and neither a space nor a comma. -/
theorem IsFinite.word (finite : value.IsFinite) :
    (∃ c ∈ value.tokenText.toList, c.isDigit = true) ∧
      ' ' ∉ value.tokenText.toList ∧ ',' ∉ value.tokenText.toList := by
  cases finite with
  | integer n =>
    exact ⟨Text.exists_isDigit_mem_toString n, Text.notMem_toString n (by decide),
      Text.notMem_toString n (by decide)⟩
  | @real x _ _ _ finite =>
    exact ⟨NumberStyle.exists_isDigit_mem_write finite,
      NumberStyle.notMem_write_of_not_isNumeralChar x rfl,
      NumberStyle.notMem_write_of_not_isNumeralChar x rfl⟩

theorem toList_tokenText_point (members : value.members? = some [x, y]) :
    value.tokenText.toList = x.tokenText.toList ++ ',' :: y.tokenText.toList := by
  rw [tokenText_point members, String.toList_append, String.toList_append, List.append_assoc]
  rfl

/-- The word of a token is not empty and has no space in it. -/
theorem IsToken.word (isToken : value.IsToken) :
    value.tokenText ≠ "" ∧ ' ' ∉ value.tokenText.toList := by
  rw [Ne, ← String.toList_eq_nil_iff]
  cases isToken with
  | keyword nonempty plain =>
    exact ⟨fun empty => nonempty (String.toList_eq_nil_iff.mp empty),
      fun member => (plain ' ' member).1 rfl⟩
  | number finite =>
    obtain ⟨⟨c, member, _⟩, noSpace, _⟩ := finite.word
    exact ⟨List.ne_nil_of_mem member, noSpace⟩
  | point members xFinite yFinite =>
    rw [toList_tokenText_point members]
    refine ⟨List.append_ne_nil_of_right_ne_nil _ (List.cons_ne_nil _ _), ?_⟩
    rw [List.mem_append, List.mem_cons, not_or, not_or]
    exact ⟨xFinite.word.2.1, by decide, yFinite.word.2.1⟩

/-- Only the word of a point has a comma in it. -/
theorem IsToken.exists_members (isToken : value.IsToken) (comma : ',' ∈ value.tokenText.toList) :
    ∃ x y, value.members? = some [x, y] ∧ x.IsFinite ∧ y.IsFinite := by
  cases isToken with
  | keyword nonempty plain => exact absurd rfl (plain ',' comma).2.1
  | number finite => exact absurd comma finite.word.2.2
  | point members xFinite yFinite => exact ⟨_, _, members, xFinite, yFinite⟩

theorem comma_mem_tokenText (members : value.members? = some [x, y]) :
    ',' ∈ value.tokenText.toList := by
  rw [toList_tokenText_point members]
  exact List.mem_append_right _ List.mem_cons_self

/-- A token without a comma in its word is a keyword, and then there is no digit either, or a
number. -/
theorem IsToken.keyword_or_number (isToken : value.IsToken)
    (noComma : ',' ∉ value.tokenText.toList) :
    (∃ id, value = .scalar (.keyword id) ∧ ∀ c ∈ value.tokenText.toList, c.isDigit = false) ∨
      value.IsFinite := by
  cases isToken with
  | keyword nonempty plain => exact .inl ⟨_, rfl, fun c member => (plain c member).2.2⟩
  | number finite => exact .inr finite
  | point members xFinite yFinite => exact absurd (comma_mem_tokenText members) noComma

/-- No number leaves the word of a keyword. -/
theorem IsFinite.tokenText_ne (finite : value.IsFinite)
    (noDigit : ∀ c ∈ other.tokenText.toList, c.isDigit = false) :
    value.tokenText ≠ other.tokenText := by
  intro same
  obtain ⟨⟨c, member, digit⟩, _⟩ := finite.word
  rw [noDigit c (same ▸ member)] at digit
  cases digit

/-- Points leave the same word exactly if their numbers have the same texts. -/
theorem tokenText_point_eq_iff {otherX otherY : Tree Float} (members : value.members? = some [x, y])
    (otherMembers : other.members? = some [otherX, otherY]) (xFinite : x.IsFinite)
    (yFinite : y.IsFinite) (otherXFinite : otherX.IsFinite) (otherYFinite : otherY.IsFinite) :
    value.tokenText = other.tokenText ↔
      x.formatNumber = otherX.formatNumber ∧ y.formatNumber = otherY.formatNumber := by
  rw [formatNumber_eq_iff xFinite otherXFinite, formatNumber_eq_iff yFinite otherYFinite,
    ← String.toList_inj, toList_tokenText_point members, toList_tokenText_point otherMembers,
    List.append_cons_inj_of_notMem xFinite.word.2.2 yFinite.word.2.2, String.toList_inj,
    String.toList_inj]
  simp

/-- Tokens that leave the same word agree. -/
theorem IsToken.agree (isToken : value.IsToken) (otherIsToken : other.IsToken)
    (same : value.tokenText = other.tokenText) : Agree value other := by
  by_cases comma : ',' ∈ value.tokenText.toList
  · obtain ⟨x, y, members, xFinite, yFinite⟩ := isToken.exists_members comma
    obtain ⟨otherX, otherY, otherMembers, otherXFinite, otherYFinite⟩ :=
      otherIsToken.exists_members (same ▸ comma)
    obtain ⟨sameX, sameY⟩ := (tokenText_point_eq_iff members otherMembers xFinite yFinite
      otherXFinite otherYFinite).mp same
    exact .point members otherMembers sameX sameY
  · rcases isToken.keyword_or_number comma with ⟨id, rfl, noDigit⟩ | finite <;>
      rcases otherIsToken.keyword_or_number (same ▸ comma) with
        ⟨otherId, rfl, otherNoDigit⟩ | otherFinite
    · obtain rfl : id = otherId := same
      exact .keyword id
    · exact absurd same.symm (otherFinite.tokenText_ne noDigit)
    · exact absurd same (finite.tokenText_ne otherNoDigit)
    · exact .number finite otherFinite ((formatNumber_eq_iff finite otherFinite).mpr same)

/-- Tokens that agree leave the same word. -/
theorem Agree.tokenText_eq (agree : Agree value other) (isToken : value.IsToken)
    (otherIsToken : other.IsToken) : value.tokenText = other.tokenText := by
  cases agree with
  | keyword id => rfl
  | number finite otherFinite same => exact (formatNumber_eq_iff finite otherFinite).mp same
  | point members otherMembers sameX sameY =>
    obtain ⟨_, _, again, xFinite, yFinite⟩ := isToken.exists_members (comma_mem_tokenText members)
    obtain ⟨_, _, otherAgain, otherXFinite, otherYFinite⟩ :=
      otherIsToken.exists_members (comma_mem_tokenText otherMembers)
    cases members.symm.trans again
    cases otherMembers.symm.trans otherAgain
    exact (tokenText_point_eq_iff members otherMembers xFinite yFinite otherXFinite
      otherYFinite).mpr ⟨sameX, sameY⟩

end Words

/-! ### Paths -/

/-- The words of a path are the words of its tokens. -/
theorem words_textOfTokens_of_tokens {tokens : List (Tree Float)}
    (each : ∀ token ∈ tokens, token.IsToken) :
    Text.words (textOfTokens tokens) = tokens.map tokenText := by
  have word : ∀ token ∈ tokens, Text.words token.tokenText = [token.tokenText] :=
    fun token member => Text.words_of_solid (each token member).word.1 (each token member).word.2
  rw [textOfTokens, Text.words_intercalate, List.flatMap_map, List.flatMap_congr word,
    List.map_eq_flatMap]

/-- Tokens leave the same words in the same order exactly if they agree one by one. -/
theorem map_tokenText_eq_iff {tokens others : List (Tree Float)}
    (each : ∀ token ∈ tokens, token.IsToken) (eachOther : ∀ token ∈ others, token.IsToken) :
    tokens.map tokenText = others.map tokenText ↔ List.Forall₂ Agree tokens others := by
  induction tokens generalizing others with
  | nil => rw [List.map_nil, List.forall₂_nil_left_iff, eq_comm, List.map_eq_nil_iff]
  | cons token tokens inductionHypothesis =>
    cases others with
    | nil => exact ⟨nofun, nofun⟩
    | cons other others =>
      rw [List.forall_mem_cons] at each eachOther
      rw [List.map_cons, List.map_cons, List.cons_eq_cons, List.forall₂_cons,
        inductionHypothesis each.2 eachOther.2]
      exact and_congr_left fun _ => ⟨each.1.agree eachOther.1,
        fun agree => agree.tokenText_eq each.1 eachOther.1⟩

/-- A path of keywords, finite numbers and points, with its tag in front, has a text, and two such
paths have the same text exactly if their tokens agree one by one. -/
theorem pathText_eq_iff {tokens others : List (Tree Float)}
    (each : ∀ token ∈ tokens, token.IsToken) (eachOther : ∀ token ∈ others, token.IsToken)
    (kind otherKind : SequenceKind) :
    ∃ text otherText,
      (Tree.sequence kind (.scalar (.keyword "path") :: tokens)).pathText = .ok text ∧
      (Tree.sequence otherKind (.scalar (.keyword "path") :: others)).pathText = .ok otherText ∧
      (text = otherText ↔ List.Forall₂ Agree tokens others) := by
  have written : ∀ (kind : SequenceKind) (tokens : List (Tree Float)),
      (Tree.sequence kind (.scalar (.keyword "path") :: tokens)).pathText =
        .ok (textOfTokens tokens) := by
    intro kind tokens
    rw [pathText, pathTokens_sequence]
    rfl
  refine ⟨_, _, written kind tokens, written otherKind others, ?_⟩
  rw [← map_tokenText_eq_iff each eachOther]
  constructor
  · intro same
    rw [← words_textOfTokens_of_tokens each, same, words_textOfTokens_of_tokens eachOther]
  · intro same
    rw [textOfTokens, same, textOfTokens]

/-- A command, a number and a point that is given as a node of this kind. -/
def moveTokens (kind : SequenceKind) : List (Tree Float) :=
  [.scalar (.keyword "M"), .scalar (.integer 12),
    .sequence kind [.scalar (.integer 3), .scalar (.integer (-4))]]

theorem isToken_moveTokens (kind : SequenceKind) : ∀ token ∈ moveTokens kind, token.IsToken := by
  have command : (Tree.scalar (.keyword "M") : Tree Float).IsToken :=
    .keyword (by decide) (List.all_iff_forall_prop.mp (by decide))
  exact List.forall_mem_cons.mpr ⟨command, List.forall_mem_cons.mpr ⟨.number (.integer 12),
    List.forall_mem_singleton.mpr (.point rfl (.integer 3) (.integer (-4)))⟩⟩

/-- It makes no difference whether the point is a plain list or a vector. -/
theorem pathText_eq_iff_moveTokens :
    (∀ token ∈ moveTokens .plain, token.IsToken) ∧
      (∀ token ∈ moveTokens .vector, token.IsToken) ∧
      (Tree.sequence .vector (.scalar (.keyword "path") :: moveTokens .plain)).pathText =
        .ok "M 12 3,-4" ∧
      List.Forall₂ Agree (moveTokens .plain) (moveTokens .vector) := by
  have each := isToken_moveTokens .plain
  have eachOther := isToken_moveTokens .vector
  obtain ⟨text, otherText, written, otherWritten, same⟩ :=
    pathText_eq_iff each eachOther .vector .vector
  have isText : (Tree.sequence .vector (.scalar (.keyword "path") :: moveTokens .plain)).pathText =
      .ok "M 12 3,-4" := rfl
  have isOtherText : (Tree.sequence .vector
      (.scalar (.keyword "path") :: moveTokens .vector)).pathText = .ok "M 12 3,-4" := rfl
  have isSame : text = otherText :=
    (Except.ok.inj (written.symm.trans isText)).trans
      (Except.ok.inj (otherWritten.symm.trans isOtherText)).symm
  exact ⟨each, eachOther, isText, same.mp isSame⟩

end Tree

end SketchForm
