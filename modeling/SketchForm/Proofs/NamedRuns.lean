/-
This file says what the runs of a row of arguments are and which names they bring up.

A row falls into runs: the arguments in front of the first keyword, which go under `_`,
and behind every keyword those up to the next. A name gets its place where it first
comes up, and what it comes to is the last of its runs that is not empty. Runs are read
from left to right, so what matters is what one more run, or a longer last run, does to
the names and to what they come to.
-/
import Mathlib.Data.List.Induction
import Mathlib.Data.List.Nodup
import Mathlib.Logic.Function.Basic
import SketchForm.Console.Arguments

namespace SketchForm

/-! ### Runs of arguments -/

namespace Objects

variable (objects : Objects)

/-- The arguments in front of the next keyword. -/
def runOf (arguments : List Ref) : List Ref :=
  arguments.takeWhile fun argument => (objects.keyword? argument).isNone

/-- The runs behind the keywords of a row, each with the name of its keyword. -/
def keywordRuns : List Ref → List (String × List Ref)
  | [] => []
  | argument :: rest =>
    match objects.keyword? argument with
    | some name => (name, objects.runOf rest) :: keywordRuns rest
    | none => keywordRuns rest

/-- The runs of a row, that in front of the first keyword under `_`. -/
def runs (arguments : List Ref) : List (String × List Ref) :=
  ("_", objects.runOf arguments) :: objects.keywordRuns arguments

end Objects

/-- The names that runs bring up, one for each; the first run does so only if it is not empty. -/
def namesOf : List (String × List Ref) → List String
  | [] => []
  | first :: rest => (if first.2 = [] then [] else [first.1]) ++ rest.map Prod.fst

/-- The last run of a name that is not empty. -/
def lastRun? (runs : List (String × List Ref)) (name : String) : Option (List Ref) :=
  (runs.findRev? fun run => run.1 == name && !run.2.isEmpty).map Prod.snd

section Runs

variable {runs : List (String × List Ref)} {name : String} {run : List Ref}

theorem lastRun?_concat_nil : lastRun? (runs ++ [(name, [])]) = lastRun? runs := by
  funext other
  simp [lastRun?, List.findRev?_eq_find?_reverse]

theorem lastRun?_concat (nonempty : run ≠ []) :
    lastRun? (runs ++ [(name, run)]) = Function.update (lastRun? runs) name (some run) := by
  funext other
  have kept : run.isEmpty = false := by simpa using nonempty
  by_cases same : other = name
  · subst same
    simp [lastRun?, List.findRev?_eq_find?_reverse, kept]
  · have apart : (name == other) = false := beq_false_of_ne (Ne.symm same)
    simp [lastRun?, List.findRev?_eq_find?_reverse, apart, same]

theorem lastRun?_concat_self (nonempty : run ≠ []) :
    lastRun? (runs ++ [(name, run)]) name = some run := by
  rw [lastRun?_concat nonempty, Function.update_self]

/-- To make the last run longer changes what its name comes to, and no other. -/
theorem lastRun?_concat_longer (longer : List Ref) (nonempty : longer ≠ []) :
    lastRun? (runs ++ [(name, longer)]) =
      Function.update (lastRun? (runs ++ [(name, run)])) name (some longer) := by
  rw [lastRun?_concat nonempty]
  by_cases empty : run = []
  · rw [empty, lastRun?_concat_nil]
  · rw [lastRun?_concat empty, Function.update_idem]

theorem namesOf_concat (started : runs ≠ []) :
    namesOf (runs ++ [(name, run)]) = namesOf runs ++ [name] := by
  obtain ⟨first, rest, rfl⟩ := List.exists_cons_of_ne_nil started
  simp [namesOf]

/-- A run that is not empty brings its name up. -/
theorem mem_namesOf_of_lastRun? (found : lastRun? runs name = some run) : name ∈ namesOf runs := by
  obtain ⟨⟨other, _⟩, isLast, rfl⟩ := Option.map_eq_some_iff.mp found
  rw [List.findRev?_eq_find?_reverse] at isLast
  have holds := List.find?_some isLast
  have member := List.mem_reverse.mp (List.mem_of_find?_eq_some isLast)
  simp only [Bool.and_eq_true, beq_iff_eq, Bool.not_eq_true', List.isEmpty_eq_false_iff] at holds
  obtain ⟨rfl, nonempty⟩ := holds
  cases runs with
  | nil => cases member
  | cons first rest =>
    rw [namesOf, List.mem_append]
    rcases List.mem_cons.mp member with rfl | later
    · left
      simp [nonempty]
    · exact Or.inr (List.mem_map_of_mem later)

theorem eraseDups_concat {names : List String} :
    (names ++ [name]).eraseDups =
      if name ∈ names then names.eraseDups else names.eraseDups ++ [name] := by
  rw [List.eraseDups_append]
  split <;> simp [List.removeAll, List.eraseDups_cons, *]

theorem nodup_eraseDups (names : List String) : names.eraseDups.Nodup := by
  induction names using List.reverseRecOn with
  | nil => exact List.nodup_nil
  | append_singleton names name inductionHypothesis =>
    rw [eraseDups_concat]
    split
    · exact inductionHypothesis
    · rename_i isNew
      rw [← List.concat_eq_append]
      exact inductionHypothesis.concat fun member => isNew (List.mem_eraseDups.mp member)

/-- To make the last run longer brings its name up if nothing else has. -/
theorem eraseDups_namesOf_concat (longer : List Ref) (nonempty : longer ≠ []) :
    (namesOf (runs ++ [(name, longer)])).eraseDups =
      (namesOf (runs ++ [(name, run)]) ++ [name]).eraseDups := by
  cases runs with
  | nil =>
    by_cases empty : run = []
    · simp [namesOf, nonempty, empty]
    · simp [namesOf, nonempty, empty, List.eraseDups_cons]
  | cons first rest =>
    rw [namesOf_concat (List.cons_ne_nil _ _), namesOf_concat (List.cons_ne_nil _ _),
      @eraseDups_concat name (namesOf (first :: rest) ++ [name]), if_pos]
    exact List.mem_append_right _ List.mem_cons_self

end Runs

/-! ### Names and what stands under them -/

namespace Grouping

section Put

variable {groups : List (String × Ref)} {name : String} {value : Ref}

theorem lookup_cons_eq_ite (key other : String) :
    ((key, value) :: groups).lookup other =
      if other = key then some value else groups.lookup other := by
  rw [List.lookup_cons]
  by_cases same : other = key
  · rw [if_pos same, beq_iff_eq.mpr same]
  · rw [if_neg same, beq_false_of_ne same]

theorem isSome_lookup_iff : (groups.lookup name).isSome ↔ name ∈ groups.map Prod.fst := by
  rw [List.lookup_isSome_iff, List.mem_map]
  exact exists_congr fun group => and_congr_right fun _ => beq_iff_eq.trans eq_comm

/-- Where every name stands once, what is found under a name is what stands with it. -/
theorem lookup_eq_some_of_mem (distinct : (groups.map Prod.fst).Nodup)
    (member : (name, value) ∈ groups) : groups.lookup name = some value := by
  induction groups with
  | nil => cases member
  | cons group rest inductionHypothesis =>
    obtain ⟨key, held⟩ := group
    rw [List.map_cons, List.nodup_cons] at distinct
    rw [lookup_cons_eq_ite]
    rcases List.mem_cons.mp member with same | later
    · cases same
      exact if_pos rfl
    · have comes : name ∈ rest.map Prod.fst := List.mem_map_of_mem later
      have apart : name ≠ key := fun same => distinct.1 (same ▸ comes)
      rw [if_neg apart]
      exact inductionHypothesis distinct.2 later

theorem map_fst_put : (put groups name value).map Prod.fst =
    if name ∈ groups.map Prod.fst then groups.map Prod.fst else groups.map Prod.fst ++ [name] := by
  induction groups with
  | nil => rfl
  | cons group rest inductionHypothesis =>
    rw [put]
    by_cases same : group.1 = name
    · simp [same]
    · have apart : ¬ name = group.1 := fun isName => same isName.symm
      rw [if_neg same, List.map_cons, inductionHypothesis]
      simp only [List.map_cons, List.mem_cons, apart, false_or]
      split <;> rfl

/-- A name that is filled keeps its place or comes last, just as if it had come up once more. -/
theorem map_fst_put_eq_eraseDups {names : List String}
    (known : groups.map Prod.fst = names.eraseDups) :
    (put groups name value).map Prod.fst = (names ++ [name]).eraseDups := by
  rw [map_fst_put, eraseDups_concat, known]
  simp only [List.mem_eraseDups]

theorem lookup_put : (fun other => (put groups name value).lookup other) =
    Function.update (fun other => groups.lookup other) name (some value) := by
  funext other
  rw [Function.update_apply]
  induction groups with
  | nil => exact lookup_cons_eq_ite name other
  | cons group rest inductionHypothesis =>
    obtain ⟨key, held⟩ := group
    rw [put, lookup_cons_eq_ite]
    by_cases same : key = name
    · rw [if_pos same, lookup_cons_eq_ite, same]
      split <;> rfl
    · rw [if_neg same, lookup_cons_eq_ite, inductionHypothesis]
      split
      · rename_i isKey
        rw [if_neg fun isName => same (isKey ▸ isName)]
      · rfl

theorem put_eq_self (found : groups.lookup name = some value) : put groups name value = groups := by
  induction groups with
  | nil => cases found
  | cons group rest inductionHypothesis =>
    obtain ⟨key, held⟩ := group
    rw [lookup_cons_eq_ite] at found
    rw [put]
    split at found
    · rename_i isName
      cases found
      rw [if_pos isName.symm, isName]
    · rename_i apart
      rw [if_neg fun same => apart same.symm, inductionHypothesis found]

end Put

/-- What is under the open name already need not be put there. -/
theorem filled_eq_of_lookup {grouping : Grouping} {value : Ref}
    (found : grouping.groups.lookup grouping.name = some value) :
    grouping.filled value = { grouping with count := grouping.count + 1 } := by
  rw [filled, put_eq_self found]

end Grouping

end SketchForm
