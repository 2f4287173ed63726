/-
This file proves when the arguments behind a mark can be told apart.

A form headed by one of two marks puts its arguments side by side with nothing between
them. Where a symbol comes second and the text in front of it does not end in a bracket,
two words run together, and where one ends and the other begins is lost: the annotation
of `a` by `bc` is written like that of `ab` by `c`. Everywhere else the text tells the
arguments.

A mark asks for so many values and says nothing about where they end, so what is read
behind it is a row of values. Rows are compared by how many values they have. Every word
in a text comes from one value at least, and in a row whose values do not run together it
comes from one at most, so no row with the same text is shorter, and only the row itself
is as long.
-/
import SketchForm.Proofs.SymbolRows

namespace SketchForm

namespace Tree

/-! ### Comparing rows -/

/-- Whether one row is no longer than another, and the other, with what follows, is the same if it
is as long. -/
def Counts (trees others : List (Tree Float)) (rest otherRest : List Char) : Prop :=
  trees.length ≤ others.length ∧
    (trees.length = others.length → trees = others ∧ rest = otherRest)

/-- Whether no row of values with the same text is shorter, and only the row itself is as long. -/
def Determined (trees : List (Tree Float)) : Prop :=
  ∀ others : List (Tree Float), (∀ other ∈ others, other.Symbolic) → ∀ rest otherRest,
    Stops rest → Stops otherRest → together trees ++ rest = together others ++ otherRest →
      Counts trees others rest otherRest

section Counts

variable {trees others items otherItems : List (Tree Float)} {tree other : Tree Float}
variable {first second otherFirst otherSecond : Tree Float} {rest otherRest : List Char}

theorem Counts.cons (counts : Counts trees others rest otherRest) (same : tree = other) :
    Counts (tree :: trees) (other :: others) rest otherRest := by
  refine ⟨Nat.succ_le_succ counts.1, fun sameLength => ?_⟩
  obtain ⟨rfl, sameRest⟩ := counts.2 (Nat.succ_injective sameLength)
  exact ⟨same ▸ rfl, sameRest⟩

/-- A value for which there are two in the other row leaves the other row longer. -/
theorem Counts.of_part (part : Tree Float) (counts : Counts (part :: trees) others rest otherRest) :
    Counts (tree :: trees) (other :: others) rest otherRest := by
  have longer : (tree :: trees).length < (other :: others).length := Nat.lt_succ_of_le counts.1
  exact ⟨Nat.le_of_lt longer, fun same => absurd same (Nat.ne_of_lt longer)⟩

theorem Counts.quotation (counts : Counts (first :: trees) (otherFirst :: others) rest otherRest) :
    Counts (.sequence .list [.scalar (.symbol "quote"), first] :: trees)
      (.sequence .list [.scalar (.symbol "quote"), otherFirst] :: others) rest otherRest := by
  refine ⟨counts.1, fun sameLength => ?_⟩
  obtain ⟨sameRow, sameRest⟩ := counts.2 sameLength
  obtain ⟨rfl, rfl⟩ := List.cons_eq_cons.mp sameRow
  exact ⟨rfl, sameRest⟩

theorem Counts.pair {head : String}
    (counts : Counts (first :: second :: trees) (otherFirst :: otherSecond :: others) rest
      otherRest) :
    Counts (pair head first second :: trees) (pair head otherFirst otherSecond :: others) rest
      otherRest := by
  refine ⟨Nat.le_of_succ_le_succ counts.1, fun sameLength => ?_⟩
  obtain ⟨sameRow, sameRest⟩ := counts.2 (congrArg Nat.succ sameLength)
  obtain ⟨rfl, sameBehind⟩ := List.cons_eq_cons.mp sameRow
  obtain ⟨rfl, rfl⟩ := List.cons_eq_cons.mp sameBehind
  exact ⟨rfl, sameRest⟩

/-- A row of one value tells the value from any other. -/
theorem Determined.toldFrom (determined : Determined [tree]) : tree.ToldFrom Symbolic := by
  intro other symbolic rest otherRest stops otherStops same
  have one : ∀ tree : Tree Float, together [tree] = tree.spelling :=
    fun tree => List.flatMap_singleton spelling tree
  obtain ⟨sameRow, sameRest⟩ := (determined [other] (List.forall_mem_singleton.mpr symbolic) rest
    otherRest stops otherStops (by rw [one, one, same])).2 rfl
  exact ⟨List.singleton_injective sameRow, sameRest⟩

/-- Of two words at the front of a text, the first of which ends where something else begins, the
other is that word or stops within it. -/
theorem eq_or_exists_of_words {word otherWord : List Char}
    (solid : ∀ c ∈ otherWord, c ∉ separators) (ends : ∀ c ∈ rest.head?, c ∈ separators)
    (same : word ++ rest = otherWord ++ otherRest) :
    word = otherWord ∧ rest = otherRest ∨
      ∃ left ≠ [], word = otherWord ++ left ∧ otherRest = left ++ rest := by
  rcases List.append_eq_append_iff.mp same with ⟨more, isOther, behind⟩ | ⟨left, isWord, behind⟩
  · cases more with
    | nil => exact .inl ⟨by rw [isOther, List.append_nil], behind⟩
    | cons c more =>
      have isEnd := ends c (behind ▸ rfl)
      exact absurd isEnd (solid c (isOther ▸ List.mem_append_right _ List.mem_cons_self))
  · by_cases nothing : left = []
    · subst nothing
      exact .inl ⟨by rw [isWord, List.append_nil], behind.symm⟩
    · exact .inr ⟨left, nothing, isWord, behind⟩

end Counts

/-! ### Telling rows apart -/

section Determined

variable {trees others items : List (Tree Float)} {rest otherRest : List Char}

/-- Behind a word in a row something else begins. -/
theorem Row.head_mem_separators {name : String} (row : Row (.scalar (.symbol name) :: trees))
    (solid : ∀ c ∈ name.toList, c ∉ separators) (stops : Stops rest) :
    ∀ c ∈ (together trees ++ rest).head?, c ∈ separators := by
  intro c isHead
  cases trees with
  | nil =>
    have ends : ∀ c ∈ ' ' :: closings, c ∈ separators := List.all_iff_forall_prop.mp (by decide)
    exact ends c (stops c isHead)
  | cons next trees =>
    obtain ⟨lead, spelled⟩ := (row.symbolic next (by simp)).exists_spelled
    obtain ⟨first, isFirst, _, leads⟩ := spelled.exists_head
    have starts : (together (next :: trees) ++ rest).head? = some first := by
      rw [together, List.flatMap_cons, List.append_assoc, List.head?_append, isFirst]
      rfl
    obtain rfl : first = c := Option.some.inj (starts.symm.trans isHead)
    by_contra notSeparator
    rw [if_neg notSeparator] at leads
    subst leads
    have clear := (List.isChain_cons.mp row.clear).1 next rfl
    cases spelled with
    | word _ _ => exact not_endsInBracket_word solid (clear ⟨_, rfl⟩)

/-- A member of a node is spelled within the node. -/
theorem length_le_spaced {item : Tree Float} (member : item ∈ items) :
    item.spelling.length ≤ (spaced items).length := by
  cases items with
  | nil => cases member
  | cons first rest =>
    rw [spaced, List.length_append]
    rcases List.mem_cons.mp member with rfl | later
    · exact Nat.le_add_right _ _
    · have spacedItem : ' ' :: item.spelling ∈ rest.map fun other => ' ' :: other.spelling :=
        List.mem_map_of_mem later
      have within := (List.sublist_flatten_of_mem spacedItem).length_le
      rw [List.length_cons, ← List.flatMap_def] at within
      omega

theorem together_cons (tree : Tree Float) (trees : List (Tree Float)) :
    together (tree :: trees) = tree.spelling ++ together trees := List.flatMap_cons

/-- Nodes in the same brackets have the same members if their members can be told from others. -/
theorem eq_of_bracketed {kind : SequenceKind} {otherItems : List (Tree Float)}
    (row : Row (.sequence kind items :: trees)) (each : ∀ item ∈ items, Determined [item])
    (symbolic : ∀ other ∈ otherItems, other.Symbolic) {bracket closing : Char}
    (isClosing : closing ∈ closings)
    (same : bracket :: (spaced items ++ [closing]) ++ rest =
      bracket :: (spaced otherItems ++ [closing]) ++ otherRest) :
    items = otherItems ∧ rest = otherRest := by
  rw [List.cons_append, List.cons_append, List.append_assoc, List.append_assoc] at same
  exact spaced_append_inj (fun item member => (each item member).toldFrom)
    (fun item member => ((row.member member).symbolic item List.mem_cons_self).begins) symbolic
    (fun other member => (symbolic other member).begins) isClosing (List.cons_eq_cons.mp same).2

/-- Whether every row with less text than this one is determined. -/
def DeterminedBelow (trees : List (Tree Float)) : Prop :=
  ∀ row, Row row → (together row).length < (together trees).length → Determined row

namespace DeterminedBelow

variable {tree first second argument otherArgument : Tree Float}

theorem tail (below : DeterminedBelow (tree :: trees)) (row : Row (tree :: trees)) :
    Determined trees := by
  have nonempty := (row.symbolic tree List.mem_cons_self).spelling_ne_nil
  refine below trees row.tail ?_
  rw [together_cons, List.length_append]
  exact Nat.lt_add_of_pos_left (List.length_pos_iff.mpr nonempty)

/-- Whether what is left of a node between its brackets is determined. -/
theorem member {kind : SequenceKind} (below : DeterminedBelow (.sequence kind items :: trees))
    (row : Row (.sequence kind items :: trees)) {bracket closing : Char}
    (isSpelled : spelling (.sequence kind items) = bracket :: (spaced items ++ [closing])) :
    ∀ item ∈ items, Determined [item] := by
  intro item member
  refine below [item] (row.member member) ?_
  have within := length_le_spaced member
  rw [together, List.flatMap_singleton, together_cons, isSpelled]
  simp only [List.length_append, List.length_cons]
  omega

variable (symbolic : ∀ other ∈ others, other.Symbolic) (stops : Stops rest)
variable (otherStops : Stops otherRest)

include symbolic stops otherStops

theorem counts_words {name otherName : String}
    (below : DeterminedBelow (.scalar (.symbol name) :: trees))
    (row : Row (.scalar (.symbol name) :: trees)) (nonempty : otherName ≠ "")
    (solid : ∀ c ∈ name.toList, c ∉ separators)
    (otherSolid : ∀ c ∈ otherName.toList, c ∉ separators)
    (same : name.toList ++ (together trees ++ rest) =
      otherName.toList ++ (together others ++ otherRest)) :
    Counts (.scalar (.symbol name) :: trees) (.scalar (.symbol otherName) :: others) rest
      otherRest := by
  rcases eq_or_exists_of_words otherSolid (row.head_mem_separators solid stops) same with
    ⟨sameName, sameBehind⟩ | ⟨left, isLeft, isName, behind⟩
  · have counts := below.tail row others symbolic rest otherRest stops otherStops sameBehind
    exact counts.cons (by rw [String.toList_inj.mp sameName])
  · -- The other row has the rest of the word still to come, so it has one value more.
    have among : ∀ c ∈ (String.ofList left).toList, c ∈ name.toList := by
      intro c member
      rw [String.toList_ofList] at member
      exact isName ▸ List.mem_append_right _ member
    have part : Row (.scalar (.symbol (String.ofList left)) :: trees) :=
      row.word solid (by simpa using isLeft) among
    have spells : ∀ name, spelling (.scalar (.symbol name)) = name.toList := fun _ => rfl
    have less : (together (.scalar (.symbol (String.ofList left)) :: trees)).length <
        (together (.scalar (.symbol name) :: trees)).length := by
      have otherNonempty : otherName.toList ≠ [] :=
        fun empty => nonempty (String.toList_eq_nil_iff.mp empty)
      have longer := List.length_pos_iff.mpr otherNonempty
      rw [together_cons, together_cons, spells, spells, String.toList_ofList, isName]
      simp only [List.length_append]
      omega
    refine Counts.of_part _
      (below _ part less others symbolic rest otherRest stops otherStops ?_)
    rw [together_cons, spells, String.toList_ofList, List.append_assoc, behind]

theorem counts_bracketed {kind : SequenceKind} {otherItems : List (Tree Float)}
    (below : DeterminedBelow (.sequence kind items :: trees))
    (row : Row (.sequence kind items :: trees))
    (otherSymbolic : ∀ other ∈ otherItems, other.Symbolic) {bracket closing : Char}
    (isClosing : closing ∈ closings)
    (isSpelled : spelling (.sequence kind items) = bracket :: (spaced items ++ [closing]))
    (otherSpelled : spelling (.sequence kind otherItems) =
      bracket :: (spaced otherItems ++ [closing]))
    (same : spelling (.sequence kind items) ++ (together trees ++ rest) =
      spelling (.sequence kind otherItems) ++ (together others ++ otherRest)) :
    Counts (.sequence kind items :: trees) (.sequence kind otherItems :: others) rest
      otherRest := by
  rw [isSpelled, otherSpelled] at same
  obtain ⟨rfl, sameBehind⟩ :=
    eq_of_bracketed row (below.member row isSpelled) otherSymbolic isClosing same
  exact (below.tail row others symbolic rest otherRest stops otherStops sameBehind).cons rfl

theorem counts_quotations
    (below : DeterminedBelow (.sequence .list [.scalar (.symbol "quote"), argument] :: trees))
    (row : Row (.sequence .list [.scalar (.symbol "quote"), argument] :: trees))
    (otherSymbolic : otherArgument.Symbolic)
    (same : argument.spelling ++ (together trees ++ rest) =
      otherArgument.spelling ++ (together others ++ otherRest)) :
    Counts (.sequence .list [.scalar (.symbol "quote"), argument] :: trees)
      (.sequence .list [.scalar (.symbol "quote"), otherArgument] :: others) rest otherRest := by
  have less : (together (argument :: trees)).length <
      (together (.sequence .list [.scalar (.symbol "quote"), argument] :: trees)).length := by
    rw [together_cons, together_cons, spelling_quote]
    simp
  refine Counts.quotation (below _ row.quotation less (otherArgument :: others)
    (List.forall_mem_cons.mpr ⟨otherSymbolic, symbolic⟩) rest otherRest stops otherStops ?_)
  rw [together_cons, together_cons, List.append_assoc, List.append_assoc, same]

theorem counts_pairs {head : String} {mark : Char} (isMark : (head, mark) ∈ pairMarks)
    {otherFirst otherSecond : Tree Float}
    (below : DeterminedBelow (pair head first second :: trees))
    (row : Row (pair head first second :: trees)) (firstSymbolic : otherFirst.Symbolic)
    (secondSymbolic : otherSecond.Symbolic)
    (same : first.spelling ++ second.spelling ++ (together trees ++ rest) =
      otherFirst.spelling ++ otherSecond.spelling ++ (together others ++ otherRest)) :
    Counts (pair head first second :: trees) (pair head otherFirst otherSecond :: others) rest
      otherRest := by
  have less : (together (first :: second :: trees)).length <
      (together (pair head first second :: trees)).length := by
    rw [together_cons, together_cons, together_cons, spelling_pair isMark]
    simp
  refine Counts.pair (below _ (row.pair isMark) less (otherFirst :: otherSecond :: others)
    (List.forall_mem_cons.mpr ⟨firstSymbolic, List.forall_mem_cons.mpr ⟨secondSymbolic, symbolic⟩⟩)
    rest otherRest stops otherStops ?_)
  simpa only [together_cons, List.append_assoc] using same

/-- A row is determined if rows with less text are: values with the same text begin alike, and what
is left to compare has less of it. -/
theorem counts {other : Tree Float} (below : DeterminedBelow (tree :: trees))
    (row : Row (tree :: trees)) (otherSymbolic : other.Symbolic)
    (same : tree.spelling ++ (together trees ++ rest) =
      other.spelling ++ (together others ++ otherRest)) :
    Counts (tree :: trees) (other :: others) rest otherRest := by
  obtain ⟨lead, spelled⟩ := (row.symbolic tree List.mem_cons_self).exists_spelled
  obtain ⟨otherLead, otherSpelled⟩ := otherSymbolic.exists_spelled
  have leads := spelled.lead_eq otherSpelled same
  cases spelled with
  | word nonempty solid =>
    cases otherSpelled with
    | word otherNonempty otherSolid =>
      exact below.counts_words symbolic stops otherStops row otherNonempty solid otherSolid same
    | _ => cases leads
  | list each plain =>
    cases otherSpelled with
    | list otherEach otherPlain =>
      exact below.counts_bracketed symbolic stops otherStops row otherEach (by decide)
        (spelling_list plain) (spelling_list otherPlain) same
    | pair isMark _ _ =>
      cases leads
      simp [pairMarks] at isMark
    | _ => cases leads
  | vector each =>
    cases otherSpelled with
    | vector otherEach =>
      exact below.counts_bracketed symbolic stops otherStops row otherEach (by decide)
        (spelling_vector _) (spelling_vector _) same
    | pair isMark _ _ =>
      cases leads
      simp [pairMarks] at isMark
    | _ => cases leads
  | quotation argumentSymbolic =>
    cases otherSpelled with
    | quotation otherArgumentSymbolic =>
      rw [spelling_quote, spelling_quote] at same
      exact below.counts_quotations symbolic stops otherStops row otherArgumentSymbolic
        (List.cons_eq_cons.mp same).2
    | pair isMark _ _ =>
      cases leads
      simp [pairMarks] at isMark
    | _ => cases leads
  | pair isMark firstSymbolic secondSymbolic =>
    cases otherSpelled with
    | pair otherMark otherFirst otherSecond =>
      obtain rfl := Option.some.inj leads
      obtain rfl := eq_of_mark isMark otherMark
      rw [spelling_pair isMark, spelling_pair isMark] at same
      exact below.counts_pairs symbolic stops otherStops isMark row otherFirst otherSecond
        (List.cons_eq_cons.mp same).2
    | _ => cases leads <;> simp [pairMarks] at isMark

end DeterminedBelow

/-- A row is determined by its text. -/
theorem Row.determined (row : Row trees) : Determined trees := by
  induction size : (together trees).length using Nat.strong_induction_on generalizing trees with
  | _ size inductionHypothesis =>
    subst size
    intro others symbolic rest otherRest stops otherStops same
    cases trees with
    | nil =>
      refine ⟨Nat.zero_le _, fun sameLength => ?_⟩
      obtain rfl := List.eq_nil_of_length_eq_zero sameLength.symm
      exact ⟨rfl, same⟩
    | cons tree trees =>
      rw [together_cons, List.append_assoc] at same
      cases others with
      | nil =>
        have begins := (row.symbolic tree List.mem_cons_self).begins
        have stopsHere : Stops (tree.spelling ++ (together trees ++ rest)) := by
          rw [same]
          exact otherStops
        exact absurd stopsHere (begins.not_stops _)
      | cons other others =>
        have below : DeterminedBelow (tree :: trees) :=
          fun row isRow less => inductionHypothesis _ less isRow rfl
        rw [List.forall_mem_cons] at symbolic
        rw [together_cons, List.append_assoc] at same
        exact below.counts symbolic.2 stops otherStops row symbolic.1 same

end Determined

/-! ### The arguments behind a mark -/

/-- The source of a form determines the two arguments behind its mark, if they can stand side by
side and so can all those within them. -/
theorem eq_of_source_pair_eq {head : String} (isHead : head ∈ ["ui-annotate", "with-meta-sugar"])
    {first second otherFirst otherSecond : Tree Float}
    (symbolic : (pair head first second).Symbolic)
    (otherSymbolic : otherFirst.Symbolic ∧ otherSecond.Symbolic)
    (separated : (pair head first second).Separated)
    (same : (pair head first second).source true = (pair head otherFirst otherSecond).source true) :
    first = otherFirst ∧ second = otherSecond := by
  obtain ⟨mark, isMark⟩ := exists_mark isHead
  have spelled : (pair head first second).spelling = (pair head otherFirst otherSecond).spelling :=
    congrArg String.toList same
  rw [spelling_pair isMark, spelling_pair isMark] at spelled
  have behind := (List.cons_eq_cons.mp spelled).2
  have determined := ((Row.single symbolic separated).pair isMark).determined
  have texts : together [first, second] ++ [] = together [otherFirst, otherSecond] ++ [] := by
    simpa [together] using behind
  have others : ∀ other ∈ [otherFirst, otherSecond], other.Symbolic :=
    List.forall_mem_cons.mpr ⟨otherSymbolic.1, List.forall_mem_singleton.mpr otherSymbolic.2⟩
  obtain ⟨sameRow, _⟩ := (determined _ others [] [] nofun nofun texts).2 rfl
  obtain ⟨sameFirst, sameSecond⟩ := List.cons_eq_cons.mp sameRow
  exact ⟨sameFirst, List.singleton_injective sameSecond⟩

end Tree

/-- Text printed of a form with two arguments behind a mark determines the arguments, if nothing is
noted on it and no symbol stands second behind anything that does not end in a bracket, neither
there nor behind a mark within the arguments. -/
theorem arguments_eq_of_print_eq {store other : Store} (fresh : ∀ id, store.memos id = {})
    (otherFresh : ∀ id, other.memos id = {}) {ref otherRef : Ref} {head : String}
    (isHead : head ∈ ["ui-annotate", "with-meta-sugar"])
    {first second otherFirst otherSecond : Tree Float}
    (isForm : store.tree ref = .ok (.pair head first second))
    (isOtherForm : other.tree otherRef = .ok (.pair head otherFirst otherSecond))
    (symbolic : first.Symbolic ∧ second.Symbolic)
    (otherSymbolic : otherFirst.Symbolic ∧ otherSecond.Symbolic)
    (separated : (Tree.pair head first second).Separated) {text : String}
    (printed : (store.print true ref).1 = .ok text)
    (otherPrinted : (other.print true otherRef).1 = .ok text) :
    first = otherFirst ∧ second = otherSecond := by
  have isSource := Store.eq_source_of_print fresh isForm printed
  have isOtherSource := Store.eq_source_of_print otherFresh isOtherForm otherPrinted
  exact Tree.eq_of_source_pair_eq isHead (Tree.symbolic_pair isHead symbolic.1 symbolic.2)
    otherSymbolic separated (isSource.symm.trans isOtherSource)

/-- A vector annotated by a symbol. -/
def annotatedVector : Store where
  objects := #[.sequence .vector [.scalar (.symbol "a")],
    .sequence .list [.scalar (.symbol "ui-annotate"), .object 0, .scalar (.symbol "b")]]

/-- The same with the vector behind the form in the store. -/
def vectorBehind : Store where
  objects := #[
    .sequence .list [.scalar (.symbol "ui-annotate"), .object 1, .scalar (.symbol "b")],
    .sequence .vector [.scalar (.symbol "a")]]

theorem arguments_eq_of_print_eq_annotatedVector :
    (annotatedVector.print true (.object 1)).1 = .ok "#[a]b" ∧
      (vectorBehind.print true (.object 0)).1 = .ok "#[a]b" ∧
      annotatedVector.tree (.object 1) = vectorBehind.tree (.object 0) := by
  let vector : Tree Float := .sequence .vector [.scalar (.symbol "a")]
  let symbol : Tree Float := .scalar (.symbol "b")
  have isForm : annotatedVector.tree (.object 1) = .ok (.pair "ui-annotate" vector symbol) := rfl
  have isOtherForm : vectorBehind.tree (.object 0) = .ok (.pair "ui-annotate" vector symbol) := rfl
  have symbolic : vector.Symbolic ∧ symbol.Symbolic :=
    ⟨.vector (List.forall_mem_singleton.mpr (Tree.symbolic_of_all (by decide) (by decide))),
      Tree.symbolic_of_all (by decide) (by decide)⟩
  have separated : (Tree.pair "ui-annotate" vector symbol).Separated := by
    refine .list (List.forall_mem_cons.mpr ⟨.scalar _, List.forall_mem_cons.mpr
      ⟨.vector (List.forall_mem_singleton.mpr (.scalar _)), List.forall_mem_singleton.mpr
        (.scalar _)⟩⟩) ?_
    rintro head first second same _ _
    cases same
    exact ⟨']', by decide, by rw [Tree.spelling_vector]; rfl⟩
  have printed : (annotatedVector.print true (.object 1)).1 = .ok "#[a]b" := rfl
  have otherPrinted : (vectorBehind.print true (.object 0)).1 = .ok "#[a]b" := rfl
  refine ⟨printed, otherPrinted, ?_⟩
  obtain ⟨sameVector, sameSymbol⟩ := arguments_eq_of_print_eq (fun _ => rfl) (fun _ => rfl)
    (by decide) isForm isOtherForm symbolic symbolic separated printed otherPrinted
  rw [isForm, isOtherForm, sameVector, sameSymbol]

/-- One symbol annotated by another. -/
def annotatedBy (first second : String) : Store where
  objects := #[.sequence .list [.scalar (.symbol "ui-annotate"), .scalar (.symbol first),
    .scalar (.symbol second)]]

/-- Where two symbols stand behind a mark, the text does not determine them: the annotation of `a`
by `bc` and that of `ab` by `c` are printed alike. -/
theorem arguments_ne_of_print_eq :
    (annotatedBy "a" "bc").tree (.object 0) =
        .ok (.pair "ui-annotate" (.scalar (.symbol "a")) (.scalar (.symbol "bc"))) ∧
      (annotatedBy "ab" "c").tree (.object 0) =
        .ok (.pair "ui-annotate" (.scalar (.symbol "ab")) (.scalar (.symbol "c"))) ∧
      ((annotatedBy "a" "bc").print true (.object 0)).1 = .ok "#abc" ∧
      ((annotatedBy "ab" "c").print true (.object 0)).1 = .ok "#abc" ∧
      (.scalar (.symbol "a") : Tree Float) ≠ .scalar (.symbol "ab") ∧
      (.scalar (.symbol "bc") : Tree Float) ≠ .scalar (.symbol "c") :=
  ⟨rfl, rfl, rfl, rfl, by simp, by simp⟩

end SketchForm
