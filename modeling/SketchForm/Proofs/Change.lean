/-
This file says what a change of one object leaves as it was.

A change in place replaces what one object holds and touches no notes. A value from
which the changed object cannot be reached is written the same way afterwards, in any
modes, and its nodes are laid out the same way. What the printer noted on such nodes
therefore still holds; on the nodes from which the changed object can be reached it may
not.
-/
import SketchForm.Proofs.Coherence
import SketchForm.Store.Edit

namespace SketchForm

/-! ### Changes -/

/-- The kind of an object that holds others in order or under keys. -/
def Object.containerKind? : Object → Option (SequenceKind ⊕ TableKind)
  | .sequence kind _ => some (.inl kind)
  | .table kind _ => some (.inr kind)
  | _ => none

/-- A change of one object in place. -/
inductive Change where
  | set (node key value : Ref)
  | append (node value : Ref)
  | erase (node key : Ref)
  | fill (node value : Ref)

namespace Change

/-- The object that is changed. -/
def node : Change → Ref
  | .set node _ _ | .append node _ | .erase node _ | .fill node _ => node

/-- The store after a change, if the object can be changed this way. -/
def apply (store : Store) : Change → Except Failure Store
  | .set node key value => store.setMember node key value
  | .append node value => store.append node value
  | .erase node key => store.erasePart node key
  | .fill node value => store.fill node value

/-- Replacing an object at a place that was found replaces it by what was meant for that place. -/
theorem exists_replace_of_place {store changed : Store} {node : Ref} {found : Except Failure Nat}
    {object : Nat → Object}
    (applied : (found >>= fun place => pure (store.replace node (object place))) = .ok changed) :
    ∃ place, changed = store.replace node (object place) := by
  cases found with
  | error failure => cases applied
  | ok place => exact ⟨place, (Except.ok.inj applied).symm⟩

/-- A change replaces one object by another of its kind and nothing else. -/
theorem exists_replace_of_apply {change : Change} {store changed : Store}
    (applied : change.apply store = .ok changed) :
    ∃ object, object.containerKind? = (store.objects.look change.node).containerKind? ∧
      changed = store.replace change.node object := by
  cases change with
  | set node key value =>
    rw [apply, Store.setMember] at applied
    rw [Change.node]
    split at applied
    · cases applied
    · obtain ⟨_, rfl⟩ := exists_replace_of_place applied
      exact ⟨_, by rw [‹store.objects.look node = _›]; rfl, rfl⟩
    · split at applied <;> cases applied
      exact ⟨_, by rw [‹store.objects.look node = _›]; rfl, rfl⟩
    · cases applied
  | append node value =>
    rw [apply, Store.append] at applied
    rw [Change.node]
    split at applied <;> cases applied
    exact ⟨_, by rw [‹store.objects.look node = _›]; rfl, rfl⟩
  | erase node key =>
    rw [apply, Store.erasePart] at applied
    rw [Change.node]
    split at applied
    · cases applied
    · obtain ⟨_, rfl⟩ := exists_replace_of_place applied
      exact ⟨_, by rw [‹store.objects.look node = _›]; rfl, rfl⟩
    · split at applied
      · split at applied <;> cases applied
        exact ⟨_, by rw [‹store.objects.look node = _›]; rfl, rfl⟩
      · cases applied
    · cases applied
    · cases applied
  | fill node value =>
    rw [apply, Store.fill] at applied
    rw [Change.node]
    split at applied <;> cases applied
    exact ⟨_, by rw [‹store.objects.look node = _›]; rfl, rfl⟩

variable {change : Change} {store changed : Store}

theorem memos_of_apply (applied : change.apply store = .ok changed) :
    changed.memos = store.memos := by
  obtain ⟨object, _, rfl⟩ := exists_replace_of_apply applied
  exact store.memos_replace change.node object

theorem depth_of_apply (applied : change.apply store = .ok changed) :
    changed.objects.depth = store.objects.depth := by
  obtain ⟨object, _, rfl⟩ := exists_replace_of_apply applied
  rw [Objects.depth, store.size_replace change.node object, Objects.depth]

theorem look_of_apply (applied : change.apply store = .ok changed) {ref : Ref}
    (different : ref ≠ change.node) : changed.objects.look ref = store.objects.look ref := by
  obtain ⟨object, _, rfl⟩ := exists_replace_of_apply applied
  exact store.look_replace_other object different

end Change

/-! ### Values that a change cannot reach -/

namespace Objects

variable {objects other : Objects}

theorem scalar?_congr {ref : Ref} (same : other.look ref = objects.look ref) :
    other.scalar? ref = objects.scalar? ref := by
  rw [scalar?, scalar?, same]

theorem head?_scalar?_congr {items : List Ref}
    (each : ∀ part ∈ items, other.look part = objects.look part) :
    items.head?.bind other.scalar? = items.head?.bind objects.scalar? := by
  cases items with
  | nil => rfl
  | cons item rest => exact scalar?_congr (each item List.mem_cons_self)

/-- The layout of a node depends on the scalars among its parts only. -/
theorem ofObject?_congr {object : Object}
    (parts : ∀ part ∈ object.parts, other.look part = objects.look part) :
    Group.ofObject? other object = Group.ofObject? objects object := by
  cases object with
  | sequence kind items =>
    cases kind with
    | list =>
      exact congrArg (fun head? => some (Group.round head? items)) (head?_scalar?_congr parts)
    | plain =>
      exact congrArg (fun head? => some (Group.round head? items)) (head?_scalar?_congr parts)
    | vector => rfl
    | tuple => rfl
  | _ => rfl

section Layer

variable {ref : Ref} (same : other.look ref = objects.look ref)
variable (parts : ∀ part ∈ (objects.look ref).parts, other.look part = objects.look part)

include same

theorem modeInside_congr (modes : ObjectId → Bool) (isReadable : Bool) :
    other.modeInside modes isReadable ref = objects.modeInside modes isReadable ref := by
  cases ref with
  | scalar value => rfl
  | object id => rw [modeInside, modeInside, same]

include parts

/-- Which parts of a value are written depends on the scalars among its parts only. -/
theorem writtenParts_congr : other.writtenParts ref = objects.writtenParts ref := by
  rw [writtenParts, writtenParts, same]
  generalize objects.look ref = object at parts
  cases object with
  | function kind params body =>
    have body := scalar?_congr (parts body (by simp [Object.parts]))
    simp only [body]
  | sequence kind items => cases kind <;> rfl
  | _ => rfl

/-- So does how their texts are put together. -/
theorem sourceOf_congr (isReadable : Bool) :
    other.sourceOf isReadable ref = objects.sourceOf isReadable ref := by
  funext texts
  rw [sourceOf, sourceOf, same]
  generalize objects.look ref = object at parts
  cases object with
  | function kind params body =>
    have body := scalar?_congr (parts body (by simp [Object.parts]))
    simp only [body]
  | sequence kind items =>
    have head : items.head?.bind other.scalar? = items.head?.bind objects.scalar? :=
      head?_scalar?_congr parts
    have short : other.shortForm? items = objects.shortForm? items := by
      rw [shortForm?, shortForm?, head]
    cases kind <;> simp only [short]
  | _ => rfl

end Layer

/-- Values from which one object cannot be reached have the same text in two stores that differ in
that object only. -/
theorem sourceIn_eq_of_apart {node : Ref}
    (agree : ∀ ref, ref ≠ node → other.look ref = objects.look ref) {modes : ObjectId → Bool}
    (depth : Nat) {isReadable : Bool} {ref : Ref} (apart : ¬ other.Reaches ref node) :
    other.sourceIn modes depth isReadable ref = objects.sourceIn modes depth isReadable ref := by
  induction depth generalizing isReadable ref with
  | zero => rfl
  | succ depth inductionHypothesis =>
    have same := agree ref fun isNode => apart (isNode ▸ .refl)
    have below : ∀ part ∈ (objects.look ref).parts, ¬ other.Reaches part node := by
      intro part isPart way
      rw [← same] at isPart
      exact apart (.head isPart way)
    have parts : ∀ part ∈ (objects.look ref).parts, other.look part = objects.look part :=
      fun part isPart => agree part fun isNode => below part isPart (isNode ▸ .refl)
    have texts : ∀ inside, ∀ part ∈ objects.writtenParts ref,
        other.sourceIn modes depth inside part = objects.sourceIn modes depth inside part :=
      fun inside part written =>
        inductionHypothesis (below part (mem_parts_of_mem_writtenParts written))
    rw [sourceIn, sourceIn, modeInside_congr same, writtenParts_congr same parts,
      mapM_congr (texts _), sourceOf_congr same parts]

section Apart

variable {node : Ref} {id : ObjectId} {group : Group}
variable (agree : ∀ ref, ref ≠ node → other.look ref = objects.look ref)
variable (apart : ¬ other.Reaches (.object id) node)

include agree apart

theorem look_eq_of_apart : other.look (.object id) = objects.look (.object id) :=
  agree _ fun isNode => apart (isNode ▸ .refl)

/-- The parts of a value from which an object cannot be reached do not reach it either. -/
theorem not_reaches_of_mem_parts {part : Ref} (isPart : part ∈ (objects.look (.object id)).parts) :
    ¬ other.Reaches part node := by
  intro way
  rw [← look_eq_of_apart agree apart] at isPart
  exact apart (.head isPart way)

/-- A node from which the changed object cannot be reached was laid out the same way before. -/
theorem NodeAt.of_apart (here : other.NodeAt id group) : objects.NodeAt id group := by
  have same := look_eq_of_apart agree apart
  have layout : Group.ofObject? other (objects.look (.object id)) =
      Group.ofObject? objects (objects.look (.object id)) := by
    refine ofObject?_congr fun part isPart => agree part fun isNode => ?_
    exact not_reaches_of_mem_parts agree apart isPart (isNode ▸ .refl)
  refine ⟨same ▸ here.keepsMemo, ?_⟩
  rw [← layout, ← same]
  exact here.isGroup

/-- What was noted on such a node agrees with the modes if it did before. -/
theorem follows_of_apart (depth : other.depth = objects.depth) {modes : ObjectId → Bool}
    {memo : Memo} (here : objects.NodeAt id group) (follows : memo.Follows objects modes id group) :
    memo.Follows other modes id group := by
  have texts : other.textsIn modes id group = objects.textsIn modes id group := by
    rw [textsIn, textsIn, depth]
    refine congrArg (Except.map group.elementTexts) (mapM_congr fun part isPart => ?_)
    rw [parts_of_ofObject? here.isGroup] at isPart
    exact sourceIn_eq_of_apart agree _ (not_reaches_of_mem_parts agree apart isPart)
  exact ⟨fun noted isNoted => texts.trans (follows.elementTexts noted isNoted), follows.delimiters⟩

end Apart

end Objects

end SketchForm
