/-
This file says what source text a value has, without the printer's notes.

The source of a tree is made of the sources of its parts: in brackets, with one space
between any two, or in short form as a mark and the arguments with nothing between. The
printer arrives at its texts another way, by laying delimiters and elements side by
side, and the usual delimiters are chosen so that the two agree.
-/
import SketchForm.Printer

namespace SketchForm

namespace Tree

variable {R : Type}

/-! ### The source of a tree -/

/-- The scalar that a tree is, if it is one. -/
def scalar? : Tree R → Option Scalar
  | .scalar value => some value
  | _ => none

/-- The short form of a sequence with these members, if it has one. -/
def shortForm? (items : List (Tree R)) : Option Sugar :=
  (items.head?.bind scalar?).bind fun head => Sugar.ofSequence? head items.length

/-- The source of a sequence in round brackets or in short form, by the sources of its members. -/
def roundSource (sugar? : Option Sugar) (texts : List String) : String :=
  match sugar? with
  | some sugar => sugar.mark ++ String.join texts.tail
  | none => "(" ++ " ".intercalate texts ++ ")"

mutual

/-- The source text of a value. -/
def source (isReadable : Bool) : Tree Float → String
  | .scalar value => value.source isReadable
  | .real value => NumberStyle.printed.write value
  | .sequence kind items =>
    match kind with
    | .list | .plain => roundSource (shortForm? items) (sources isReadable items)
    | .vector => "[" ++ " ".intercalate (sources isReadable items) ++ "]"
    | .tuple => undefinedText
  | .table _ entries => "\x7b" ++ " ".intercalate (entrySources isReadable entries) ++ "\x7d"
  | .array _ => undefinedText
  | .cell content => "(atom " ++ source isReadable content ++ ")"
  | .function kind params body =>
    if body.scalar? = some .null then nativeFunctionText
    else "(" ++ kind.typeName ++ " " ++ source isReadable params ++ " " ++ source isReadable body
      ++ ")"

/-- The source texts of the members of a sequence. -/
def sources (isReadable : Bool) : List (Tree Float) → List String
  | [] => []
  | item :: rest => source isReadable item :: sources isReadable rest

/-- The source texts of the keys and values of a table, by turns. -/
def entrySources (isReadable : Bool) : List (Tree Float × Tree Float) → List String
  | [] => []
  | (key, value) :: rest =>
    source isReadable key :: source isReadable value :: entrySources isReadable rest

end

theorem sources_eq_map (isReadable : Bool) (items : List (Tree Float)) :
    sources isReadable items = items.map (source isReadable) := by
  induction items with
  | nil => rfl
  | cons item rest inductionHypothesis => rw [sources, inductionHypothesis, List.map_cons]

theorem entrySources_eq_flatMap (isReadable : Bool) (entries : List (Tree Float × Tree Float)) :
    entrySources isReadable entries =
      entries.flatMap fun entry => [entry.1.source isReadable, entry.2.source isReadable] := by
  induction entries with
  | nil => rfl
  | cons entry rest inductionHypothesis =>
    rw [entrySources, inductionHypothesis, List.flatMap_cons]
    rfl

end Tree

/-! ### Delimiters and elements -/

theorem join_zipWith_spaces (texts extra : List String) :
    String.join (List.zipWith (· ++ ·) (List.replicate texts.length " " ++ extra) texts) =
      String.join (texts.map (" " ++ ·)) := by
  induction texts with
  | nil => rw [List.zipWith_nil_right]; rfl
  | cons text rest inductionHypothesis =>
    rw [List.length_cons, List.replicate_succ, List.cons_append, List.zipWith_cons_cons,
      String.join_cons, inductionHypothesis, List.map_cons, String.join_cons]

theorem intercalate_space_cons (text : String) (rest : List String) :
    " ".intercalate (text :: rest) = text ++ String.join (rest.map (" " ++ ·)) := by
  induction rest generalizing text with
  | nil => rw [String.intercalate_singleton, List.map_nil, String.join_nil, String.append_empty]
  | cons second others inductionHypothesis =>
    rw [String.intercalate_cons_cons, inductionHypothesis, List.map_cons, String.join_cons,
      String.append_assoc, String.append_assoc]

/-- The usual delimiters put one space between any two elements and nothing around them. -/
theorem join_defaultDelimiters (texts : List String) :
    String.join (List.zipWith (· ++ ·) (defaultDelimiters texts.length) texts) =
        " ".intercalate texts ∧
      (defaultDelimiters texts.length).getLast? = some "" := by
  cases texts with
  | nil => exact ⟨rfl, rfl⟩
  | cons text rest =>
    have nonzero : ¬ ((text :: rest).length : Int) = 0 := by simp; omega
    have count : (((text :: rest).length : Int) - 1).toNat = rest.length := by simp
    rw [defaultDelimiters, if_neg nonzero, count]
    refine ⟨?_, ?_⟩
    · rw [List.zipWith_cons_cons, String.join_cons, join_zipWith_spaces, String.empty_append,
        intercalate_space_cons]
    · rw [List.getLast?_cons, List.getLast?_append]
      rfl

theorem join_zipWith_empty (texts : List String) :
    String.join (List.zipWith (· ++ ·) (List.replicate texts.length "") texts) =
      String.join texts := by
  induction texts with
  | nil => rfl
  | cons text rest inductionHypothesis =>
    rw [List.length_cons, List.replicate_succ, List.zipWith_cons_cons, String.join_cons,
      inductionHypothesis, String.empty_append, String.join_cons]

namespace Group

/-- Elements in brackets, with nothing noted on them. -/
theorem assemble_plain (group : Group) (plain : group.sugar? = none) {texts : List String}
    (count : texts.length = group.parts.length) :
    group.assemble group.delimiters (group.elementTexts texts) =
      .ok (group.opening ++ " ".intercalate texts ++ group.closing) := by
  obtain ⟨joined, last⟩ := join_defaultDelimiters texts
  have delimiters : group.delimiters = defaultDelimiters texts.length := by
    rw [Group.delimiters, plain, count]
  have same : group.elementTexts texts = texts := by rw [elementTexts, plain]
  rw [delimiters, same, assemble, last]
  show Except.ok (group.opening ++ String.join _ ++ "" ++ group.closing) = _
  rw [joined, String.append_empty]

/-- A short form, with nothing noted on it: the head leaves no text and nothing stands between the
arguments. -/
theorem assemble_short (group : Group) {sugar : Sugar} (short : group.sugar? = some sugar)
    {head : String} {rest : List String} (count : (head :: rest).length = sugar.length) :
    group.assemble group.delimiters (group.elementTexts (head :: rest)) =
      .ok (group.opening ++ String.join rest ++ group.closing) := by
  have delimiters : group.delimiters = List.replicate ("" :: rest).length "" := by
    rw [Group.delimiters, short]
    show List.replicate sugar.length "" = _
    rw [← count]
    rfl
  have texts : group.elementTexts (head :: rest) = "" :: rest := by rw [elementTexts, short]; rfl
  have last : (List.replicate ("" :: rest).length "").getLast? = some "" := by
    rw [List.getLast?_replicate]
    rfl
  rw [delimiters, texts, assemble, last]
  show Except.ok (group.opening ++ String.join _ ++ "" ++ group.closing) = _
  rw [join_zipWith_empty, String.join_cons, String.empty_append, String.append_empty]

end Group

end SketchForm
