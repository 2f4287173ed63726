/-
This file proves that a value that does not contain itself has a tree.

An object holds what its references lead to. Following them one step further down takes
one layer off the tree of a value, and the tree is there if the references run out
before the depth does. In a store in which no object holds itself, however far down, a
way down meets every object at most once, so no way is longer than the store is large,
and every value has a tree.
-/
import Mathlib.Data.Finset.Card
import Mathlib.Data.Finset.Range
import Mathlib.Logic.Relation
import SketchForm.Proofs.Traversal
import SketchForm.Store.Unfold

namespace SketchForm

/-! ### What an object holds -/

/-- The references in an object. -/
def Object.parts : Object → List Ref
  | .sequence _ items => items
  | .table _ entries => entries.flatMap fun entry => [entry.1, entry.2]
  | .cell content => [content]
  | .function _ params body => [params, body]
  | .scalar _ | .real _ | .array _ => []

namespace Objects

/-- Whether a value holds another: as a member, as a key or under a key, in a cell, or as the
parameters or the body of a function. -/
def Holds (objects : Objects) (container part : Ref) : Prop :=
  part ∈ (objects.look container).parts

/-- Whether a value is another or holds it, however far down. -/
def Reaches (objects : Objects) : Ref → Ref → Prop := Relation.ReflTransGen objects.Holds

/-- Whether no value holds itself, however far down. -/
def Acyclic (objects : Objects) : Prop := ∀ ref, ¬ Relation.TransGen objects.Holds ref ref

/-- An object as one layer of a tree, with the trees of its parts below it. -/
inductive Layer (below : Ref → Tree Float → Prop) : Object → Tree Float → Prop
  | scalar (value : Scalar) : Layer below (.scalar value) (.scalar value)
  | real (value : Float) : Layer below (.real value) (.real value)
  | sequence {kind : SequenceKind} {items : List Ref} {trees : List (Tree Float)}
      (each : List.Forall₂ below items trees) :
      Layer below (.sequence kind items) (.sequence kind trees)
  | table {kind : TableKind} {entries : List (Ref × Ref)} {trees : List (Tree Float × Tree Float)}
      (each : List.Forall₂ (fun entry tree => below entry.1 tree.1 ∧ below entry.2 tree.2)
        entries trees) :
      Layer below (.table kind entries) (.table kind trees)
  | array (values : List Float) : Layer below (.array values) (.array values)
  | cell {content : Ref} {tree : Tree Float} (holds : below content tree) :
      Layer below (.cell content) (.cell tree)
  | function {kind : FunctionKind} {params body : Ref} {paramsTree bodyTree : Tree Float}
      (holdsParams : below params paramsTree) (holdsBody : below body bodyTree) :
      Layer below (.function kind params body) (.function kind paramsTree bodyTree)

theorem Layer.imp {below other : Ref → Tree Float → Prop} {object : Object} {tree : Tree Float}
    (wider : ∀ part ∈ object.parts, ∀ tree, below part tree → other part tree)
    (layer : Layer below object tree) : Layer other object tree := by
  cases layer with
  | scalar value => exact .scalar value
  | real value => exact .real value
  | sequence each => exact .sequence (forall₂_imp_of_mem wider each)
  | table each =>
    rename_i kind entries trees
    have widerBoth : ∀ entry ∈ entries, ∀ tree : Tree Float × Tree Float,
        below entry.1 tree.1 ∧ below entry.2 tree.2 →
          other entry.1 tree.1 ∧ other entry.2 tree.2 := by
      intro entry member tree both
      have parts : ∀ part ∈ [entry.1, entry.2], part ∈ (Object.table kind entries).parts :=
        fun part isPart => List.mem_flatMap.mpr ⟨entry, member, isPart⟩
      exact ⟨wider _ (parts _ List.mem_cons_self) _ both.1,
        wider _ (parts _ (List.mem_cons_of_mem _ List.mem_cons_self)) _ both.2⟩
    exact .table (forall₂_imp_of_mem widerBoth each)
  | array values => exact .array values
  | cell holds => exact .cell (wider _ List.mem_cons_self _ holds)
  | function holdsParams holdsBody =>
    exact .function (wider _ List.mem_cons_self _ holdsParams)
      (wider _ (List.mem_cons_of_mem _ List.mem_cons_self) _ holdsBody)

/-- An object is a layer of some tree exactly if all its parts have trees. -/
theorem exists_layer_iff {below : Ref → Tree Float → Prop} {object : Object} :
    (∃ tree, Layer below object tree) ↔ ∀ part ∈ object.parts, ∃ tree, below part tree := by
  cases object with
  | scalar value => exact ⟨fun _ => nofun, fun _ => ⟨_, .scalar value⟩⟩
  | real value => exact ⟨fun _ => nofun, fun _ => ⟨_, .real value⟩⟩
  | array values => exact ⟨fun _ => nofun, fun _ => ⟨_, .array values⟩⟩
  | sequence kind items =>
    rw [Object.parts, ← exists_forall₂_iff]
    constructor
    · rintro ⟨_, layer⟩
      cases layer with
      | sequence each => exact ⟨_, each⟩
    · rintro ⟨_, each⟩
      exact ⟨_, .sequence each⟩
  | table kind entries =>
    have pairs : (∀ part ∈ (Object.table kind entries).parts, ∃ tree, below part tree) ↔
        ∀ entry ∈ entries, ∃ tree : Tree Float × Tree Float,
          below entry.1 tree.1 ∧ below entry.2 tree.2 := by
      simp only [Object.parts, List.mem_flatMap, List.mem_cons, List.not_mem_nil, or_false]
      constructor
      · intro each entry member
        obtain ⟨key, holdsKey⟩ := each entry.1 ⟨entry, member, Or.inl rfl⟩
        obtain ⟨value, holdsValue⟩ := each entry.2 ⟨entry, member, Or.inr rfl⟩
        exact ⟨(key, value), holdsKey, holdsValue⟩
      · rintro each part ⟨entry, member, rfl | rfl⟩
        · obtain ⟨tree, holdsKey, _⟩ := each entry member
          exact ⟨tree.1, holdsKey⟩
        · obtain ⟨tree, _, holdsValue⟩ := each entry member
          exact ⟨tree.2, holdsValue⟩
    rw [pairs, ← exists_forall₂_iff]
    constructor
    · rintro ⟨_, layer⟩
      cases layer with
      | table each => exact ⟨_, each⟩
    · rintro ⟨_, each⟩
      exact ⟨_, .table each⟩
  | cell content =>
    rw [Object.parts, List.forall_mem_singleton]
    constructor
    · rintro ⟨_, layer⟩
      cases layer with
      | cell holds => exact ⟨_, holds⟩
    · rintro ⟨_, holds⟩
      exact ⟨_, .cell holds⟩
  | function kind params body =>
    rw [Object.parts, List.forall_mem_cons, List.forall_mem_singleton]
    constructor
    · rintro ⟨_, layer⟩
      cases layer with
      | function holdsParams holdsBody => exact ⟨⟨_, holdsParams⟩, _, holdsBody⟩
    · rintro ⟨⟨_, holdsParams⟩, _, holdsBody⟩
      exact ⟨_, .function holdsParams holdsBody⟩

/-! ### Following references -/

variable {objects : Objects}

/-- One step down takes one layer off a tree. -/
theorem unfold_succ_iff {depth : Nat} {ref : Ref} {tree : Tree Float} :
    objects.unfold (depth + 1) ref = some tree ↔
      Layer (fun part below => objects.unfold depth part = some below) (objects.look ref) tree := by
  rw [unfold]
  cases objects.look ref with
  | scalar value =>
    refine ⟨fun ends => ?_, fun layer => ?_⟩
    · rw [← Option.some.inj ends]
      exact .scalar value
    · cases layer
      rfl
  | real value =>
    refine ⟨fun ends => ?_, fun layer => ?_⟩
    · rw [← Option.some.inj ends]
      exact .real value
    · cases layer
      rfl
  | array values =>
    refine ⟨fun ends => ?_, fun layer => ?_⟩
    · rw [← Option.some.inj ends]
      exact .array values
    · cases layer
      rfl
  | sequence kind items =>
    refine ⟨fun ends => ?_, fun layer => ?_⟩
    · obtain ⟨trees, each, rfl⟩ := Option.map_eq_some_iff.mp ends
      exact .sequence (mapM_eq_some_iff.mp each)
    · cases layer with
      | sequence each => exact Option.map_eq_some_iff.mpr ⟨_, mapM_eq_some_iff.mpr each, rfl⟩
  | table kind entries =>
    have entry_iff : ∀ (entry : Ref × Ref) (tree : Tree Float × Tree Float),
        (do
          let key ← unfold objects depth entry.1
          let value ← unfold objects depth entry.2
          pure (key, value)) = some tree ↔
          objects.unfold depth entry.1 = some tree.1 ∧
            objects.unfold depth entry.2 = some tree.2 := by
      intro entry tree
      cases objects.unfold depth entry.1 <;> cases objects.unfold depth entry.2 <;>
        simp [Prod.ext_iff]
    refine ⟨fun ends => ?_, fun layer => ?_⟩
    · obtain ⟨trees, each, rfl⟩ := Option.map_eq_some_iff.mp ends
      exact .table ((mapM_eq_some_iff.mp each).imp fun entry tree => (entry_iff entry tree).mp)
    · cases layer with
      | table each =>
        refine Option.map_eq_some_iff.mpr ⟨_, mapM_eq_some_iff.mpr ?_, rfl⟩
        exact each.imp fun entry tree => (entry_iff entry tree).mpr
  | cell content =>
    refine ⟨fun ends => ?_, fun layer => ?_⟩
    · obtain ⟨tree, holds, rfl⟩ := Option.map_eq_some_iff.mp ends
      exact .cell holds
    · cases layer with
      | cell holds => exact Option.map_eq_some_iff.mpr ⟨_, holds, rfl⟩
  | function kind params body =>
    refine ⟨fun ends => ?_, fun layer => ?_⟩
    · obtain ⟨paramsTree, holdsParams, ends⟩ := Option.bind_eq_some_iff.mp ends
      obtain ⟨bodyTree, holdsBody, ends⟩ := Option.bind_eq_some_iff.mp ends
      rw [← Option.some.inj ends]
      exact .function holdsParams holdsBody
    · cases layer with
      | function holdsParams holdsBody =>
        show (objects.unfold depth params >>= _) = _
        rw [holdsParams]
        show (objects.unfold depth body >>= _) = _
        rw [holdsBody]
        rfl

/-- Going deeper does not change a tree. -/
theorem unfold_mono {depth deeper : Nat} (further : depth ≤ deeper) {ref : Ref} {tree : Tree Float}
    (ends : objects.unfold depth ref = some tree) : objects.unfold deeper ref = some tree := by
  induction depth generalizing deeper ref tree with
  | zero => cases ends
  | succ depth inductionHypothesis =>
    cases deeper with
    | zero => exact absurd further (Nat.not_succ_le_zero depth)
    | succ deeper =>
      refine unfold_succ_iff.mpr ((unfold_succ_iff.mp ends).imp fun part _ below => ?_)
      exact inductionHypothesis (Nat.le_of_succ_le_succ further)

/-- Whether the references from a value run out within a depth. -/
def Fits (objects : Objects) (depth : Nat) (ref : Ref) : Prop :=
  ∃ tree, objects.unfold depth ref = some tree

theorem Fits.mono {depth deeper : Nat} (further : depth ≤ deeper) {ref : Ref}
    (fits : objects.Fits depth ref) : objects.Fits deeper ref := by
  obtain ⟨tree, ends⟩ := fits
  exact ⟨tree, unfold_mono further ends⟩

theorem fits_succ_iff {depth : Nat} {ref : Ref} :
    objects.Fits (depth + 1) ref ↔ ∀ part ∈ (objects.look ref).parts, objects.Fits depth part := by
  simp only [Fits, unfold_succ_iff]
  exact exists_layer_iff

/-! ### Stores without loops -/

/-- What holds something is an object of the store. -/
theorem exists_id_of_holds {container part : Ref} (holds : objects.Holds container part) :
    ∃ id < objects.size, container = .object id := by
  cases container with
  | scalar value => exact absurd holds List.not_mem_nil
  | object id =>
    refine ⟨id, ?_, rfl⟩
    by_contra beyond
    rw [Holds, look, Array.getElem?_eq_none (Nat.le_of_not_lt beyond)] at holds
    exact absurd holds List.not_mem_nil

/-- If no value holds itself, the references from a value run out as soon as the depth exceeds the
number of objects not yet passed. The objects passed on the way are all different, since each
holds the value that has been reached. -/
theorem Acyclic.fits_of_passed (acyclic : objects.Acyclic) (depth : Nat) (passed : Finset ObjectId)
    (ref : Ref) (present : passed ⊆ Finset.range objects.size)
    (above : ∀ id ∈ passed, Relation.TransGen objects.Holds (.object id) ref)
    (deep : objects.size < depth + passed.card) : objects.Fits depth ref := by
  induction depth generalizing passed ref with
  | zero =>
    have few := Finset.card_le_card present
    rw [Finset.card_range] at few
    omega
  | succ depth inductionHypothesis =>
    refine fits_succ_iff.mpr fun part isPart => ?_
    have holds : objects.Holds ref part := isPart
    obtain ⟨id, inside, rfl⟩ := exists_id_of_holds holds
    have fresh : id ∉ passed := fun again => acyclic _ (above id again)
    refine inductionHypothesis (insert id passed) part ?_ ?_ ?_
    · exact Finset.insert_subset (Finset.mem_range.mpr inside) present
    · intro other member
      rcases Finset.mem_insert.mp member with rfl | before
      · exact .single holds
      · exact (above other before).tail holds
    · rw [Finset.card_insert_of_notMem fresh]
      omega

/-- In a store without loops every value has a tree. -/
theorem Acyclic.fits (acyclic : objects.Acyclic) (ref : Ref) : objects.Fits objects.depth ref :=
  acyclic.fits_of_passed objects.depth ∅ ref (Finset.empty_subset _) nofun (Nat.lt_succ_self _)

/-- A store in which every object refers to earlier ones only has no loops. -/
theorem acyclic_of_earlier
    (earlier : ∀ id part, objects.Holds (.object id) (.object part) → part < id) :
    objects.Acyclic := by
  have down : ∀ id ref, Relation.TransGen objects.Holds (.object id) ref →
      ∀ part, ref = .object part → part < id := by
    intro id ref way
    induction way with
    | single holds =>
      rintro part rfl
      exact earlier id part holds
    | tail _ holds inductionHypothesis =>
      rintro part rfl
      obtain ⟨middle, _, rfl⟩ := exists_id_of_holds holds
      exact Nat.lt_trans (earlier middle part holds) (inductionHypothesis middle rfl)
  intro ref loop
  obtain ⟨next, holds, _⟩ := Relation.TransGen.head'_iff.mp loop
  obtain ⟨id, _, rfl⟩ := exists_id_of_holds holds
  exact Nat.lt_irrefl id (down id _ loop id rfl)

/-- Whether a reference leads into a store before a place, if it leads into the store at all. -/
def leadsBefore (id : Nat) : Ref → Bool
  | .object part => part < id
  | .scalar _ => true

/-- Whether every object refers to earlier ones only, computed. -/
def isOrdered (objects : Objects) : Bool :=
  (List.range objects.size).all fun id =>
    (objects.look (.object id)).parts.all (leadsBefore id)

theorem acyclic_of_isOrdered (ordered : objects.isOrdered = true) : objects.Acyclic := by
  refine acyclic_of_earlier fun id part holds => ?_
  obtain ⟨_, inside, isObject⟩ := exists_id_of_holds holds
  cases isObject
  have each := List.all_eq_true.mp ordered id (List.mem_range.mpr inside)
  exact of_decide_eq_true (List.all_eq_true.mp each (.object part) holds)

end Objects

end SketchForm
