/-
This file proves that values can be printed in any order, and as often as one likes,
without one print changing the text of another.

The notes that a store starts with may say anything: texts that are out of date,
delimiters that somebody chose, one of the two without the other. What a print adds to
them is in each case what a print from the start would have come to at that place, since
a note that is there is used as it is and never replaced. That is the invariant here. It
compares two runs of the printer, one from the start and one from notes made in the
meantime, and it holds whether the print that made the notes grow gave a text or failed.

Both runs are in one mode. The mode does not enter the notes, so a print in the other
mode does change what comes later.
-/
import SketchForm.Proofs.Acyclic
import SketchForm.Proofs.Keeping
import SketchForm.Proofs.Upkeep

namespace SketchForm

namespace Printing

/-! ### Depth is no limit -/

variable {objects : Objects} {isReadable : Bool}

/-- A value is printed the same way from any depth at which its references run out. -/
theorem print_eq_of_fits {depth deeper : Nat} (further : depth ≤ deeper) {ref : Ref}
    (fits : objects.Fits depth ref) :
    print objects isReadable deeper ref = print objects isReadable depth ref := by
  induction depth generalizing deeper ref with
  | zero =>
    obtain ⟨_, ends⟩ := fits
    cases ends
  | succ depth inductionHypothesis =>
    cases deeper with
    | zero => exact absurd further (Nat.not_succ_le_zero depth)
    | succ deeper =>
      have part : ∀ part ∈ objects.writtenParts ref,
          print objects isReadable deeper part = print objects isReadable depth part :=
        fun part written => inductionHypothesis (Nat.le_of_succ_le_succ further)
          (Objects.fits_of_mem_writtenParts fits written)
      rcases objects.unnoted_or_node ref with unnoted | ⟨id, group, rfl, node⟩
      · rw [print_unnoted unnoted, print_unnoted unnoted, mapM_congr part]
      · rw [Objects.writtenParts_of_ofObject? node.isGroup] at part
        rw [print_node node, print_node node]
        simp only [printNoted, elementTexts, mapM_congr part]

end Printing

/-! ### What a print from the start comes to -/

section Start

variable (objects : Objects) (isReadable : Bool) (start : Memos)

/-- What printing a value from the start gives. -/
def Printing.outcome (ref : Ref) : Except Failure String :=
  (Printing.print objects isReadable objects.depth ref start).1

/-- The texts of a node's elements that a print from the start uses: those noted, or else those
that its parts are given. -/
def Printing.textsOf (id : ObjectId) (group : Group) : Except Failure (List String) :=
  match (start id).elementTexts? with
  | some texts => .ok texts
  | none => (group.parts.mapM (Printing.outcome objects isReadable start)).map group.elementTexts

/-- The delimiters of a node that a print from the start uses. -/
def Printing.delimitersOf (id : ObjectId) (group : Group) : List String :=
  (start id).delimiters?.getD group.delimiters

/-- Whether what is noted on a node is what a print from the start uses there, and includes what
was noted at the start. -/
structure Memo.Continues (id : ObjectId) (group : Group) (memo : Memo) : Prop where
  elementTexts : ∀ texts, memo.elementTexts? = some texts →
    Printing.textsOf objects isReadable start id group = .ok texts
  delimiters : ∀ delimiters, memo.delimiters? = some delimiters →
    Printing.delimitersOf start id group = delimiters
  keepsTexts : memo.elementTexts? = none → (start id).elementTexts? = none
  keepsDelimiters : memo.delimiters? = none → (start id).delimiters? = none

/-- Whether this holds of the notes on all nodes. -/
def Memos.ContinuesAs (memos : Memos) : Prop :=
  ∀ id group, objects.NodeAt id group →
    (memos id).Continues objects isReadable start id group

/-- Nothing has been added at the start. -/
theorem Memos.ContinuesAs.refl : start.ContinuesAs objects isReadable start := by
  intro id group _
  refine ⟨fun texts noted => ?_, fun delimiters noted => ?_, fun absent => absent,
    fun absent => absent⟩
  · rw [Printing.textsOf, noted]
  · rw [Printing.delimitersOf, noted]
    rfl

end Start

variable {objects : Objects} {isReadable : Bool} {start : Memos}

theorem Memos.ContinuesAs.update {memos : Memos}
    (continued : start.ContinuesAs objects isReadable memos)
    {id : ObjectId} {group : Group} (node : objects.NodeAt id group) {change : Memo → Memo}
    (changed : (memos id).Continues objects isReadable start id group →
      (change (memos id)).Continues objects isReadable start id group) :
    start.ContinuesAs objects isReadable (memos.update id change) := by
  refine Memos.forall_update (P := fun id memo => ∀ group, objects.NodeAt id group →
    memo.Continues objects isReadable start id group) continued fun other isOther => ?_
  cases node.unique isOther
  exact changed (continued id group node)

namespace Printing

/-! ### One step of the printer -/

section Nodes

variable {printPart : Ref → Printing String} {id : ObjectId} {group : Group}
variable (node : objects.NodeAt id group)

include node

theorem keeps_elementTexts_continuesAs
    (parts : Keeps (start.ContinuesAs objects isReadable) (group.parts.mapM printPart)
      (group.parts.mapM (outcome objects isReadable start))) :
    Keeps (start.ContinuesAs objects isReadable) (elementTexts printPart id group)
      (textsOf objects isReadable start id group) := by
  refine keeps_elementTexts ?_ ?_ ?_
  · exact fun memos continued texts noted => (continued id group node).elementTexts texts noted
  · intro memos continued absent
    refine ⟨_, parts, ?_⟩
    rw [textsOf, (continued id group node).keepsTexts absent]
  · intro texts expected memos continued
    refine continued.update node fun before => ⟨fun noted isNoted => ?_, before.delimiters, nofun,
      before.keepsDelimiters⟩
    rw [expected, Option.some.inj isNoted]

theorem keeps_delimiters_continuesAs :
    Keeps (start.ContinuesAs objects isReadable) (delimiters id group)
      (.ok (delimitersOf start id group)) := by
  refine keeps_delimiters ?_ ?_ ?_
  · exact fun memos continued noted isNoted => (continued id group node).delimiters noted isNoted
  · intro memos continued absent
    rw [delimitersOf, (continued id group node).keepsDelimiters absent]
    rfl
  · intro memos continued
    refine continued.update node fun before => ⟨before.elementTexts, fun noted isNoted => ?_,
      before.keepsTexts, nofun⟩
    exact Option.some.inj isNoted

theorem keeps_noteSugar_continuesAs :
    Keeps (start.ContinuesAs objects isReadable) (noteSugar id group) (.ok ()) :=
  keeps_noteSugar fun _ continued => continued.update node fun before =>
    ⟨before.elementTexts, before.delimiters, before.keepsTexts, before.keepsDelimiters⟩

end Nodes

/-- What an action comes to from all notes that continue the start is what it comes to from the
start. -/
theorem Keeps.at_start {α : Type} {action : Printing α} {result : Except Failure α}
    (keeps : Keeps (start.ContinuesAs objects isReadable) action result) :
    Keeps (start.ContinuesAs objects isReadable) action (action start).1 := by
  rw [(keeps start (Memos.ContinuesAs.refl objects isReadable start)).1]
  exact keeps

/-- A value is printed as from the start, and the notes go on continuing the start. The result of a
node is put together from those of its parts, which are known from one step further down. -/
theorem keeps_print_continuesAs (depth : Nat) (inside : depth ≤ objects.depth) {ref : Ref}
    (fits : objects.Fits depth ref) :
    Keeps (start.ContinuesAs objects isReadable) (print objects isReadable depth ref)
      (outcome objects isReadable start ref) := by
  induction depth generalizing ref with
  | zero =>
    obtain ⟨_, ends⟩ := fits
    cases ends
  | succ depth inductionHypothesis =>
    have parts : Keeps (start.ContinuesAs objects isReadable)
        ((objects.writtenParts ref).mapM (print objects isReadable depth))
        ((objects.writtenParts ref).mapM (outcome objects isReadable start)) :=
      Keeps.mapM fun part written => inductionHypothesis (Nat.le_of_succ_le inside)
        (Objects.fits_of_mem_writtenParts fits written)
    rw [outcome, print_eq_of_fits inside fits]
    rcases objects.unnoted_or_node ref with unnoted | ⟨id, group, rfl, node⟩
    · rw [print_unnoted unnoted]
      exact (parts.bind fun _ _ => Keeps.settle _).at_start
    · rw [Objects.writtenParts_of_ofObject? node.isGroup] at parts
      rw [print_node node]
      exact (keeps_printNoted (keeps_elementTexts_continuesAs node parts)
        (keeps_delimiters_continuesAs node) (keeps_noteSugar_continuesAs node)).at_start

end Printing

/-! ### Printing one value after another -/

namespace Store

variable {store : Store}

/-- The store after some values were printed, one after another. -/
def printEach (store : Store) (isReadable : Bool) (refs : List Ref) : Store :=
  refs.foldl (fun printed ref => (printed.print isReadable ref).2) store

theorem printEach_concat (refs : List Ref) (last : Ref) :
    store.printEach isReadable (refs ++ [last]) =
      ((store.printEach isReadable refs).print isReadable last).2 := by
  rw [printEach, List.foldl_append]
  rfl

@[simp] theorem objects_printEach (refs : List Ref) :
    (store.printEach isReadable refs).objects = store.objects :=
  objects_foldl (fun printed ref => objects_print printed isReadable ref) refs store

/-- What the prints note continues what was noted before the first of them. -/
theorem continuesAs_printEach (acyclic : store.objects.Acyclic) (refs : List Ref) :
    store.memos.ContinuesAs store.objects isReadable (store.printEach isReadable refs).memos := by
  induction refs using List.reverseRecOn with
  | nil => exact Memos.ContinuesAs.refl _ _ _
  | append_singleton refs last inductionHypothesis =>
    have step := Printing.keeps_print_continuesAs store.objects.depth le_rfl (acyclic.fits last)
      _ inductionHypothesis
    rw [printEach_concat, print, objects_printEach]
    exact step.2

/-- In a store without loops, with whatever notes, a value is given the same text whether other
values, or the value itself, were printed before in the same mode or not. -/
theorem print_printEach (acyclic : store.objects.Acyclic) (isReadable : Bool) (earlier : List Ref)
    (ref : Ref) :
    ((store.printEach isReadable earlier).print isReadable ref).1 =
      (store.print isReadable ref).1 := by
  have continued : store.memos.ContinuesAs store.objects isReadable
      (store.printEach isReadable earlier).memos := continuesAs_printEach acyclic earlier
  have step :=
    Printing.keeps_print_continuesAs store.objects.depth le_rfl (acyclic.fits ref) _ continued
  rw [print, objects_printEach]
  exact step.1

/-- A pair that holds one list twice, with texts out of date noted on the list, and wide delimiters
but no texts on the pair. -/
def annotatedPair : Store where
  objects := pairOf (.integer 1)
  memos
    | 0 => { elementTexts? := some ["2"] }
    | 1 => { delimiters? := some ["", "   ", ""] }
    | _ => {}

theorem print_printEach_annotatedPair :
    annotatedPair.objects.Acyclic ∧
      ((annotatedPair.printEach true [.object 1, .object 0]).print true (.object 1)).1 =
        .ok "[(2)   (2)]" := by
  have acyclic : annotatedPair.objects.Acyclic := acyclic_pairOf (.integer 1)
  refine ⟨acyclic, ?_⟩
  rw [print_printEach acyclic true [.object 1, .object 0] (.object 1)]
  decide +kernel

end Store

end SketchForm
