/-
This file proves what stands under the names of a command's arguments.

What stands under a name comes from the last of its runs that is not empty. A run of one
argument stands there as that argument, and a longer one as a plain list made for it.

The row is read from left to right, so the runs read so far are a history of which the
last run is still open. An argument either closes the open run and opens another or makes
it longer, and both keep what the history says about the names. What needs care is the
list that grows in place: it was made for the open run and stands under no other name, so
growing it shows nowhere else.
-/
import SketchForm.Proofs.NamedRuns
import SketchForm.Session.Consoles

namespace SketchForm

/-! ### Reading an argument -/

namespace Grouping

variable {grouping : Grouping} {argument : Ref} {store : Store}

theorem add_of_none (count : grouping.count = 0) :
    grouping.add argument store = .ok (grouping.filled argument, store) := by
  rw [add, count]
  rfl

theorem add_of_one {first : Ref} (count : grouping.count = 1)
    (isFirst : grouping.content = .ok first) :
    grouping.add argument store =
      .ok (grouping.filled (.object store.objects.size),
        (store.allocate (.sequence .plain [first, argument])).2) := by
  rw [add, count, isFirst]
  rfl

theorem add_of_many {number id : Nat} {run : List Ref} (count : grouping.count = number + 2)
    (isList : grouping.content = .ok (.object id))
    (holds : store.objects.look (.object id) = .sequence .plain run) :
    grouping.add argument store =
      .ok ({ grouping with count := grouping.count + 1 },
        store.replace (.object id) (.sequence .plain (run ++ [argument]))) := by
  have appended : store.append (.object id) argument =
      .ok (store.replace (.object id) (.sequence .plain (run ++ [argument]))) := by
    rw [Store.append, holds]
  rw [add, count, isList]
  show (store.append (.object id) argument >>= fun after => pure (_, after)) = _
  rw [appended]
  rfl

end Grouping

/-! ### Stores with more in them -/

/-- A store has what another had, as it was, and maybe more lists. -/
structure Store.Grows (before after : Store) : Prop where
  size : before.objects.size ≤ after.objects.size
  look : ∀ id < before.objects.size,
    after.objects.look (.object id) = before.objects.look (.object id)
  memos : after.memos = before.memos
  isNoKeyword : ∀ id, before.objects.size ≤ id → after.objects.keyword? (.object id) = none

namespace Objects

variable {objects : Objects} {id : ObjectId}

/-- Behind a number that no object has there is nothing known. -/
theorem look_of_size_le (absent : objects.size ≤ id) :
    objects.look (.object id) = .scalar .foreign := by
  rw [look, Array.getElem?_eq_none absent]
  rfl

theorem lt_size_of_look {object : Object} (isObject : objects.look (.object id) = object)
    (known : object ≠ .scalar .foreign) : id < objects.size := by
  refine Nat.lt_of_not_le fun absent => known ?_
  rw [← isObject, look_of_size_le absent]

theorem keyword?_congr {other : Objects} {ref : Ref} (same : other.look ref = objects.look ref) :
    other.keyword? ref = objects.keyword? ref := by
  rw [keyword?, scalar?, same, keyword?, scalar?]

theorem keyword?_of_sequence {ref : Ref} {kind : SequenceKind} {items : List Ref}
    (isSequence : objects.look ref = .sequence kind items) : objects.keyword? ref = none := by
  rw [keyword?, scalar?, isSequence]

end Objects

namespace Store

variable {before after : Store}

theorem Grows.refl (store : Store) : store.Grows store where
  size := Nat.le_refl _
  look _ _ := rfl
  memos := rfl
  isNoKeyword id absent := by
    rw [Objects.keyword?, Objects.scalar?, Objects.look_of_size_le absent]

/-- Which values are keywords stays the same. -/
theorem Grows.keyword? (grows : before.Grows after) (ref : Ref) :
    after.objects.keyword? ref = before.objects.keyword? ref := by
  cases ref with
  | scalar value => rfl
  | object id =>
    rcases Nat.lt_or_ge id before.objects.size with present | absent
    · exact Objects.keyword?_congr (grows.look id present)
    · rw [grows.isNoKeyword id absent, (Grows.refl before).isNoKeyword id absent]

theorem Grows.allocate (grows : before.Grows after) (kind : SequenceKind) (items : List Ref) :
    before.Grows (after.allocate (.sequence kind items)).2 where
  size := Nat.le_trans grows.size (by simp [Store.allocate])
  look id present := by
    rw [after.look_allocate_other _ (Nat.lt_of_lt_of_le present grows.size), grows.look id present]
  memos := grows.memos
  isNoKeyword id absent := by
    rcases Nat.lt_trichotomy id after.objects.size with earlier | rfl | later
    · rw [Objects.keyword?_congr (after.look_allocate_other _ earlier),
        grows.isNoKeyword id absent]
    · exact Objects.keyword?_of_sequence (after.look_allocate_self _)
    · have beyond : (after.allocate (.sequence kind items)).2.objects.size ≤ id := by
        simpa [Store.allocate] using Nat.succ_le_of_lt later
      exact (Grows.refl _).isNoKeyword id beyond

/-- A list that was not there before can change without a trace in what was. -/
theorem Grows.replace (grows : before.Grows after) {id : ObjectId}
    (isNew : before.objects.size ≤ id) (present : id < after.objects.size) (kind : SequenceKind)
    (items : List Ref) :
    before.Grows (after.replace (.object id) (.sequence kind items)) where
  size := Nat.le_trans grows.size (Nat.le_of_eq (after.size_replace _ _).symm)
  look other wasThere := by
    have apart : Ref.object other ≠ .object id := fun same =>
      Nat.not_le_of_lt wasThere (Ref.object.inj same ▸ isNew)
    rw [after.look_replace_other _ apart, grows.look other wasThere]
  memos := (after.memos_replace _ _).trans grows.memos
  isNoKeyword other absent := by
    by_cases same : other = id
    · subst same
      exact Objects.keyword?_of_sequence (after.look_replace_self _ present)
    · have apart : Ref.object other ≠ .object id := fun isNode => same (Ref.object.inj isNode)
      rw [Objects.keyword?_congr (after.look_replace_other _ apart), grows.isNoKeyword other absent]

end Store

/-! ### What a name stands for -/

/-- A value stands for a run, or for none: `nil` for none, the argument for a run of one, and for a
longer one a plain list of its arguments that was not there before. -/
inductive StandsFor (before after : Store) : Option (List Ref) → Ref → Prop where
  | nothing : StandsFor before after none (.scalar .nil)
  | single (argument : Ref) : StandsFor before after (some [argument]) argument
  | several {arguments : List Ref} {id : ObjectId} (many : 2 ≤ arguments.length)
      (isNew : before.objects.size ≤ id)
      (holds : after.objects.look (.object id) = .sequence .plain arguments) :
      StandsFor before after (some arguments) (.object id)

/-- Under a name there is a list that was made for its run. -/
def Gathers (run? : String → Option (List Ref)) (value? : String → Option Ref) (name : String)
    (list : Ref) : Prop :=
  value? name = some list ∧ ∃ run, run? name = some run ∧ 2 ≤ run.length

/-- A list that was made stands under a name other than this one. -/
def GathersElsewhere (run? : String → Option (List Ref)) (value? : String → Option Ref)
    (name : String) (list : Ref) : Prop :=
  ∃ other ≠ name, Gathers run? value? other list

/-- What is under every name stands for its run, and no list is under two names. -/
structure Holds (before after : Store) (run? : String → Option (List Ref))
    (value? : String → Option Ref) : Prop where
  each : ∀ name value, value? name = some value → StandsFor before after (run? name) value
  apart : ∀ name other list, Gathers run? value? name list → Gathers run? value? other list →
    name = other

section Holding

variable {start before after : Store} {run? : String → Option (List Ref)}
variable {value? : String → Option Ref} {name : String} {run : List Ref} {value : Ref}

/-- A value stands for a run as long as the list that was made for it is as it was. -/
theorem StandsFor.later {found? : Option (List Ref)} (stands : StandsFor start before found? value)
    (same : ∀ run, found? = some run → 2 ≤ run.length →
      after.objects.look value = before.objects.look value) :
    StandsFor start after found? value := by
  cases stands with
  | nothing => exact .nothing
  | single => exact .single value
  | several many isNew holds => exact .several many isNew ((same _ rfl many).trans holds)

theorem StandsFor.eq_of_singleton {argument : Ref}
    (stands : StandsFor start before (some [argument]) value) : value = argument := by
  cases stands with
  | single _ => rfl
  | several many isNew holds => exact absurd many (by simp)

/-- What stands for a longer run is a new list of it. -/
theorem StandsFor.exists_list (stands : StandsFor start before (some run) value)
    (many : 2 ≤ run.length) : ∃ id, value = .object id ∧ start.objects.size ≤ id ∧
      id < before.objects.size ∧ before.objects.look value = .sequence .plain run := by
  cases stands with
  | single argument => exact absurd many (by simp)
  | several many isNew holds =>
    exact ⟨_, rfl, isNew, Objects.lt_size_of_look holds (by simp), holds⟩

/-- Where a list was made, it is one of the objects. -/
theorem Holds.look_eq (holds : Holds start before run? value?) {list : Ref}
    (gathers : Gathers run? value? name list) :
    ∃ id run, list = .object id ∧ start.objects.size ≤ id ∧ id < before.objects.size ∧
      before.objects.look list = .sequence .plain run := by
  obtain ⟨found, run, isRun, many⟩ := gathers
  have stands := isRun ▸ holds.each name list found
  obtain ⟨id, isObject, isNew, present, isList⟩ := stands.exists_list many
  exact ⟨id, run, isObject, isNew, present, isList⟩

/-- A name gets another value, and what was made for the other names stays as it is. -/
theorem Holds.update (holds : Holds start before run? value?) {found? : Option (List Ref)}
    (stands : StandsFor start after found? value)
    (others : ∀ list, GathersElsewhere run? value? name list →
      after.objects.look list = before.objects.look list)
    (isFresh : ∀ run, found? = some run → 2 ≤ run.length →
      ¬ GathersElsewhere run? value? name value) :
    Holds start after (Function.update run? name found?)
      (Function.update value? name (some value)) where
  each other held found := by
    by_cases same : other = name
    · subst same
      rw [Function.update_self] at found ⊢
      exact Option.some.inj found ▸ stands
    · rw [Function.update_of_ne same] at found ⊢
      exact (holds.each other held found).later fun earlier isRun many =>
        others held ⟨other, same, found, earlier, isRun, many⟩
  apart first second list gathers again := by
    -- A name other than the one that is filled gathers what it did.
    have kept : ∀ other ≠ name, Gathers (Function.update run? name found?)
        (Function.update value? name (some value)) other list → Gathers run? value? other list := by
      intro other different gathered
      rwa [Gathers, Function.update_of_ne different, Function.update_of_ne different] at gathered
    have fresh : Gathers (Function.update run? name found?)
        (Function.update value? name (some value)) name list →
          ¬ GathersElsewhere run? value? name list := by
      intro gathered
      rw [Gathers, Function.update_self, Function.update_self] at gathered
      obtain ⟨same, run, isRun, many⟩ := gathered
      exact Option.some.inj same ▸ isFresh run isRun many
    by_cases isFirst : first = name
    · by_cases isSecond : second = name
      · rw [isFirst, isSecond]
      · exact absurd ⟨second, isSecond, kept second isSecond again⟩ (fresh (isFirst ▸ gathers))
    · by_cases isSecond : second = name
      · exact absurd ⟨first, isFirst, kept first isFirst gathers⟩ (fresh (isSecond ▸ again))
      · exact holds.apart first second list (kept first isFirst gathers)
          (kept second isSecond again)

end Holding

/-! ### Reading a row -/

/-- What is known of a row tells its runs so far: those that are closed, and the open one. -/
structure Tells (start : Store) (closed : List (String × List Ref)) (name : String)
    (run : List Ref) (grouping : Grouping) (store : Store) : Prop where
  isOpen : grouping.name = name
  count : grouping.count = run.length
  names : grouping.groups.map Prod.fst = (namesOf (closed ++ [(name, run)])).eraseDups
  holds : Holds start store (lastRun? (closed ++ [(name, run)]))
    fun name => grouping.groups.lookup name
  grows : start.Grows store

namespace Tells

variable {start store : Store} {closed : List (String × List Ref)} {name : String}
variable {run : List Ref} {grouping : Grouping}

theorem nothing_read (store : Store) : Tells store [] "_" [] .start store where
  isOpen := rfl
  count := rfl
  names := rfl
  holds := ⟨nofun, nofun⟩
  grows := .refl store

/-- Something stands under a name exactly if the name came up. -/
theorem isSome_lookup_iff (tells : Tells start closed name run grouping store) (other : String) :
    (grouping.groups.lookup other).isSome ↔ other ∈ namesOf (closed ++ [(name, run)]) := by
  rw [Grouping.isSome_lookup_iff, tells.names, List.mem_eraseDups]

/-- Where nothing stands, no run has left anything. -/
theorem lastRun?_eq_none (tells : Tells start closed name run grouping store) {other : String}
    (absent : grouping.groups.lookup other = none) :
    lastRun? (closed ++ [(name, run)]) other = none := by
  rw [← Option.not_isSome_iff_eq_none, Option.isSome_iff_exists]
  rintro ⟨last, found⟩
  have isSome := (tells.isSome_lookup_iff other).mpr (mem_namesOf_of_lastRun? found)
  rw [absent] at isSome
  cases isSome

/-- A keyword closes the open run and opens another. -/
theorem opened (tells : Tells start closed name run grouping store) (other : String) :
    Tells start (closed ++ [(name, run)]) other [] (grouping.opened other) store := by
  have history : namesOf (closed ++ [(name, run)] ++ [(other, [])]) =
      namesOf (closed ++ [(name, run)]) ++ [other] := namesOf_concat (by simp)
  rw [Grouping.opened]
  cases found : grouping.groups.lookup other with
  | some value =>
    refine ⟨rfl, rfl, ?_, ?_, tells.grows⟩
    · have member := (tells.isSome_lookup_iff other).mp (found ▸ rfl)
      rw [history, eraseDups_concat, if_pos member, tells.names]
    · rw [lastRun?_concat_nil]
      exact tells.holds
  | none =>
    refine ⟨rfl, rfl, ?_, ?_, tells.grows⟩
    · rw [history, Grouping.map_fst_put_eq_eraseDups tells.names]
    · rw [lastRun?_concat_nil, Grouping.lookup_put,
        ← Function.update_eq_self other (lastRun? (closed ++ [(name, run)])),
        tells.lastRun?_eq_none found]
      exact tells.holds.update .nothing (fun _ _ => rfl) nofun

/-- The value that the open run makes with one more argument goes under its name. -/
theorem filled (tells : Tells start closed name run grouping store) {after : Store}
    {value argument : Ref} (grows : start.Grows after)
    (stands : StandsFor start after (some (run ++ [argument])) value)
    (others : ∀ list, GathersElsewhere (lastRun? (closed ++ [(name, run)]))
      (fun name => grouping.groups.lookup name) name list →
        after.objects.look list = store.objects.look list)
    (isFresh : 2 ≤ (run ++ [argument]).length →
      ¬ GathersElsewhere (lastRun? (closed ++ [(name, run)]))
        (fun name => grouping.groups.lookup name) name value) :
    Tells start closed name (run ++ [argument]) (grouping.filled value) after where
  isOpen := tells.isOpen
  count := by rw [Grouping.filled, tells.count, List.length_append, List.length_singleton]
  names := by
    rw [Grouping.filled, tells.isOpen, Grouping.map_fst_put_eq_eraseDups tells.names,
      eraseDups_namesOf_concat _ (by simp)]
  holds := by
    rw [Grouping.filled, tells.isOpen, lastRun?_concat_longer _ (by simp), Grouping.lookup_put]
    exact tells.holds.update stands others fun _ same many => isFresh (Option.some.inj same ▸ many)
  grows := grows

/-- Under the open name there is what its run left there. -/
theorem exists_content (tells : Tells start closed name run grouping store) (nonempty : run ≠ []) :
    ∃ value, grouping.content = .ok value ∧ grouping.groups.lookup name = some value ∧
      StandsFor start store (some run) value := by
  have found := @lastRun?_concat_self closed name run nonempty
  obtain ⟨value, isValue⟩ := Option.isSome_iff_exists.mp
    ((tells.isSome_lookup_iff name).mpr (mem_namesOf_of_lastRun? found))
  refine ⟨value, ?_, isValue, found ▸ tells.holds.each _ value isValue⟩
  rw [Grouping.content, tells.isOpen, isValue]

/-- An argument goes under the open name, whatever it is. -/
theorem add (tells : Tells start closed name run grouping store) (argument : Ref) :
    ∃ later after, grouping.add argument store = .ok (later, after) ∧
      Tells start closed name (run ++ [argument]) later after := by
  match run with
  | [] =>
    refine ⟨_, _, Grouping.add_of_none tells.count, ?_⟩
    exact tells.filled tells.grows (.single argument) (fun _ _ => rfl) (by simp)
  | [first] =>
    obtain ⟨value, isValue, _, stands⟩ := tells.exists_content (by simp)
    cases stands.eq_of_singleton
    refine ⟨_, _, Grouping.add_of_one tells.count isValue, ?_⟩
    have made := store.look_allocate_self (.sequence .plain [first, argument])
    refine tells.filled (tells.grows.allocate .plain [first, argument])
      (.several (by simp) tells.grows.size made) ?_ fun _ => ?_
    · rintro list ⟨_, _, gathers⟩
      obtain ⟨_, _, rfl, _, present, _⟩ := tells.holds.look_eq gathers
      exact store.look_allocate_other _ present
    · rintro ⟨_, _, gathers⟩
      obtain ⟨id, _, same, _, present, _⟩ := tells.holds.look_eq gathers
      exact Nat.ne_of_gt present (Ref.object.inj same)
  | first :: second :: rest =>
    obtain ⟨value, isValue, found, stands⟩ := tells.exists_content (by simp)
    obtain ⟨id, rfl, isNew, present, holds⟩ := stands.exists_list (by simp)
    refine ⟨_, _, Grouping.add_of_many tells.count isValue holds, ?_⟩
    rw [← Grouping.filled_eq_of_lookup (tells.isOpen ▸ found)]
    -- The list was made for the open run, so it stands under no other name.
    have apart : ¬ GathersElsewhere (lastRun? (closed ++ [(name, first :: second :: rest)]))
        (fun name => grouping.groups.lookup name) name (.object id) := by
      rintro ⟨other, different, gathers⟩
      have here := @lastRun?_concat_self closed name _ (List.cons_ne_nil first (second :: rest))
      exact different (tells.holds.apart other name _ gathers ⟨found, _, here, by simp⟩)
    refine tells.filled (tells.grows.replace isNew present .plain _)
      (.several (by simp) isNew (store.look_replace_self _ present)) ?_ fun _ => apart
    intro list gathers
    exact store.look_replace_other _ fun same => apart (same ▸ gathers)

/-- Reading the rest of a row goes on with the open run and ends with all its runs told. -/
theorem foldlM (arguments : List Ref) (tells : Tells start closed name run grouping store) :
    ∃ later after, arguments.foldlM Grouping.read (grouping, store) = .ok (later, after) ∧
      ∃ others last lastRun, Tells start others last lastRun later after ∧
        others ++ [(last, lastRun)] = closed ++
          (name, run ++ start.objects.runOf arguments) :: start.objects.keywordRuns arguments := by
  induction arguments generalizing closed name run grouping store with
  | nil =>
    refine ⟨grouping, store, rfl, closed, name, run, tells, ?_⟩
    rw [Objects.runOf, List.takeWhile_nil, List.append_nil, Objects.keywordRuns]
  | cons argument rest inductionHypothesis =>
    rw [List.foldlM_cons, Grouping.read, tells.grows.keyword?, Objects.runOf, Objects.keywordRuns,
      List.takeWhile_cons]
    cases start.objects.keyword? argument with
    | some other =>
      obtain ⟨later, after, reads, others, last, lastRun, told, same⟩ :=
        inductionHypothesis (tells.opened other)
      refine ⟨later, after, reads, others, last, lastRun, told, ?_⟩
      rw [same]
      simp
    | none =>
      obtain ⟨longer, stored, added, goesOn⟩ := tells.add argument
      obtain ⟨later, after, reads, others, last, lastRun, told, same⟩ := inductionHypothesis goesOn
      refine ⟨later, after, ?_, others, last, lastRun, told, ?_⟩
      · simp only [added]
        exact reads
      · rw [same]
        simp [Objects.runOf]

end Tells

/-! ### The groups of a command's arguments -/

namespace Session

/-- Arguments are grouped whatever they are: every keyword among them has its name there once, in
the order in which names first come up, behind `_` if anything is in front of the first keyword.
What stands under a name comes from its last run that is not empty. No object and no note
changes. -/
theorem groupArguments_eq (session : Session) (arguments : List Ref) :
    ∃ groups store, groupArguments arguments session = (.ok groups, { session with store }) ∧
      groups.map Prod.fst = (namesOf (session.store.objects.runs arguments)).eraseDups ∧
      (∀ name value, (name, value) ∈ groups →
        StandsFor session.store store (lastRun? (session.store.objects.runs arguments) name)
          value) ∧
      (∀ id < session.store.objects.size,
        store.objects.look (.object id) = session.store.objects.look (.object id)) ∧
      store.memos = session.store.memos := by
  obtain ⟨grouping, store, reads, others, last, lastRun, told, same⟩ :=
    (Tells.nothing_read session.store).foldlM arguments
  rw [List.nil_append, List.nil_append] at same
  obtain ⟨_, _, names, holds, grows⟩ := told
  rw [same] at names holds
  have grouped : session.store.groupArguments arguments = .ok (grouping.groups, store) := by
    rw [Store.groupArguments, reads]
    rfl
  refine ⟨grouping.groups, store, ?_, names, fun name value member => ?_, grows.look, grows.memos⟩
  · show (settle (session.store.groupArguments arguments) >>= fun grouped => do
      modify fun session => { session with store := grouped.2 }
      pure grouped.1) session = _
    rw [grouped]
    rfl
  · have distinct : (grouping.groups.map Prod.fst).Nodup := names ▸ nodup_eraseDups _
    exact holds.each name value (Grouping.lookup_eq_some_of_mem distinct member)

end Session

end SketchForm
