/-
This file proves which requests for symbols and keywords share an object.

The two tables are kept by the names as they are asked for. So in a run of requests there
is one object for each request, however often it is repeated, and never one for two
different requests. What is asked for is another matter. A symbol is its name, and a
keyword is its name without a marker in front, so a keyword that is asked for both with
its marker and without has two objects, which are equal. That is the only way in which
equal objects come to be two.
-/
import SketchForm.Interner

namespace SketchForm

/-! ### What is asked for -/

namespace Scalar

/-- Whether a name is another one with a marker in front, and that one has none. -/
def IsMarked (name bare : List Char) : Prop := name = ':' :: bare ∧ bare.head? ≠ some ':'

/-- A name is that of its keyword, behind a marker or without one. -/
theorem keywordId_cases (name : List Char) :
    name = ':' :: keywordId name ∨ name = keywordId name ∧ name.head? ≠ some ':' := by
  rw [keywordId.eq_def]
  split
  · exact .inl rfl
  · rename_i bare
    refine .inr ⟨rfl, fun marked => ?_⟩
    obtain ⟨rest, isMarked⟩ := List.head?_eq_some_iff.mp marked
    exact bare rest isMarked

theorem IsMarked.keywordId_eq {name bare : List Char} (marked : IsMarked name bare) :
    keywordId name = keywordId bare := by
  obtain ⟨rfl, noMarker⟩ := marked
  rcases keywordId_cases bare with isBare | ⟨isBare, _⟩
  · rw [isBare] at noMarker
    exact absurd rfl noMarker
  · exact isBare

/-- Names lead to the same keyword only if they differ in nothing but a marker. -/
theorem keywordId_eq_iff {name other : List Char} :
    keywordId name = keywordId other ↔
      name = other ∨ IsMarked name other ∨ IsMarked other name := by
  constructor
  · intro same
    rcases keywordId_cases name with isName | ⟨isName, bare⟩ <;>
      rcases keywordId_cases other with isOther | ⟨isOther, otherBare⟩
    · exact .inl (by rw [isName, isOther, same])
    · exact .inr (.inl ⟨by rw [isName, same, ← isOther], otherBare⟩)
    · exact .inr (.inr ⟨by rw [isOther, ← same, ← isName], bare⟩)
    · exact .inl (by rw [isName, isOther, same])
  · rintro (rfl | marked | marked)
    · rfl
    · exact marked.keywordId_eq
    · exact marked.keywordId_eq.symm

end Scalar

namespace InternRequest

/-- The value that is asked for. -/
def value : InternRequest → Scalar
  | .symbol name => .symbol name
  | .keyword name => .keywordNamed name

/-- Whether two requests are for one keyword, one of them with its marker and one without. -/
inductive Respelled : InternRequest → InternRequest → Prop
  | unmarked {name bare : String} (marked : Scalar.IsMarked name.toList bare.toList) :
      Respelled (.keyword name) (.keyword bare)
  | marked {name bare : String} (marked : Scalar.IsMarked name.toList bare.toList) :
      Respelled (.keyword bare) (.keyword name)

theorem keyword_value_eq_iff {name other : String} :
    (keyword name).value = (keyword other).value ↔
      Scalar.keywordId name.toList = Scalar.keywordId other.toList := by
  rw [value, value, Scalar.keywordNamed, Scalar.keywordNamed, Scalar.keyword.injEq,
    String.ofList_inj]

/-- Requests are for the same value if they are the same request, or if they spell one keyword with
its marker and without. -/
theorem value_eq_iff {request other : InternRequest} :
    request.value = other.value ↔ request = other ∨ request.Respelled other := by
  constructor
  · intro same
    cases request with
    | symbol name =>
      cases other with
      | symbol otherName => exact .inl (congrArg symbol (Scalar.symbol.inj same))
      | keyword otherName => cases same
    | keyword name =>
      cases other with
      | symbol otherName => cases same
      | keyword otherName =>
        rcases Scalar.keywordId_eq_iff.mp (keyword_value_eq_iff.mp same) with
          sameName | marked | marked
        · exact .inl (congrArg keyword (String.toList_inj.mp sameName))
        · exact .inr (.unmarked marked)
        · exact .inr (.marked marked)
  · rintro (rfl | marked | marked)
    · rfl
    · exact keyword_value_eq_iff.mpr marked.keywordId_eq
    · exact keyword_value_eq_iff.mpr marked.keywordId_eq.symm

end InternRequest

/-! ### One request -/

namespace Interner

/-- The object that was made for a request, if one was. -/
def kept? (interner : Interner) : InternRequest → Option Interned
  | .symbol name => interner.symbols.get? name
  | .keyword name => interner.keywords.get? name

variable {interner : Interner} {request other : InternRequest} {found another : Interned}

theorem answer_of_kept (kept : interner.kept? request = some found) :
    interner.answer request = (found, interner) := by
  cases request with
  | symbol name =>
    simp only [kept?] at kept
    simp only [answer, symbolFor, kept]
  | keyword name =>
    simp only [kept?] at kept
    simp only [answer, keywordFor, kept]

/-- A request that was not made before makes an object, with the next number, and keeps it. -/
theorem answer_of_absent (absent : interner.kept? request = none) :
    (interner.answer request).1 = ⟨interner.count, request.value⟩ ∧
      (interner.answer request).2.count = interner.count + 1 ∧
      ∀ other, (interner.answer request).2.kept? other =
        if other = request then some ⟨interner.count, request.value⟩ else interner.kept? other := by
  cases request with
  | symbol name =>
    simp only [kept?] at absent
    simp only [answer, symbolFor, absent, InternRequest.value, true_and]
    intro other
    cases other with
    | symbol otherName => simp only [kept?, Directory.get?_insert, InternRequest.symbol.injEq]
    | keyword otherName => rfl
  | keyword name =>
    simp only [kept?] at absent
    simp only [answer, keywordFor, absent, InternRequest.value, true_and]
    intro other
    cases other with
    | symbol otherName => rfl
    | keyword otherName => simp only [kept?, Directory.get?_insert, InternRequest.keyword.injEq]

/-- What is answered is kept. -/
theorem kept?_answer_self (interner : Interner) (request : InternRequest) :
    (interner.answer request).2.kept? request = some (interner.answer request).1 := by
  cases kept : interner.kept? request with
  | some found => rw [answer_of_kept kept, kept]
  | none =>
    obtain ⟨made, _, keeps⟩ := answer_of_absent kept
    rw [keeps, if_pos rfl, made]

/-- What was kept stays as it is. -/
theorem kept?_answer_of_kept (request : InternRequest) (kept : interner.kept? other = some found) :
    (interner.answer request).2.kept? other = some found := by
  cases present : interner.kept? request with
  | some _ => rw [answer_of_kept present, kept]
  | none =>
    obtain ⟨_, _, keeps⟩ := answer_of_absent present
    have apart : other ≠ request := by
      rintro rfl
      cases kept.symm.trans present
    rw [keeps, if_neg apart, kept]

/-- Whether every object that is kept is what was asked for, and no two requests have one object. -/
structure Sound (interner : Interner) : Prop where
  value_eq : ∀ {request found}, interner.kept? request = some found → found.value = request.value
  serial_lt : ∀ {request found}, interner.kept? request = some found →
    found.serial < interner.count
  eq_of_serial_eq : ∀ {request other found another}, interner.kept? request = some found →
    interner.kept? other = some another → found.serial = another.serial → request = other

theorem sound_empty : Sound {} := by
  have absent : ∀ {request found}, kept? {} request ≠ some found := by
    rintro (name | name) found kept <;> cases kept
  exact ⟨fun kept => absurd kept absent, fun kept => absurd kept absent,
    fun kept => absurd kept absent⟩

theorem Sound.answer (sound : interner.Sound) (request : InternRequest) :
    (interner.answer request).2.Sound := by
  cases kept : interner.kept? request with
  | some found =>
    rw [answer_of_kept kept]
    exact sound
  | none =>
    obtain ⟨_, count, keeps⟩ := answer_of_absent kept
    -- What is kept now is the new object, or was kept before and so has a smaller number.
    have old_or_new : ∀ {other found}, (interner.answer request).2.kept? other = some found →
        other = request ∧ found = ⟨interner.count, request.value⟩ ∨
          interner.kept? other = some found := by
      intro other found keptNow
      rw [keeps] at keptNow
      split at keptNow
      · exact .inl ⟨‹_›, (Option.some.inj keptNow).symm⟩
      · exact .inr keptNow
    refine ⟨fun keptNow => ?_, fun keptNow => ?_, fun keptNow otherKept sameSerial => ?_⟩
    · rcases old_or_new keptNow with ⟨rfl, rfl⟩ | before
      · rfl
      · exact sound.value_eq before
    · rw [count]
      rcases old_or_new keptNow with ⟨rfl, rfl⟩ | before
      · exact Nat.lt_succ_self _
      · exact Nat.lt_succ_of_lt (sound.serial_lt before)
    · rcases old_or_new keptNow with ⟨rfl, rfl⟩ | before <;>
        rcases old_or_new otherKept with ⟨rfl, rfl⟩ | otherBefore
      · rfl
      · exact absurd sameSerial.symm (Nat.ne_of_lt (sound.serial_lt otherBefore))
      · exact absurd sameSerial (Nat.ne_of_lt (sound.serial_lt before))
      · exact sound.eq_of_serial_eq before otherBefore sameSerial

/-! ### Requests one after another -/

theorem Sound.answerAll (sound : interner.Sound) (requests : List InternRequest) :
    (interner.answerAll requests).2.Sound := by
  induction requests generalizing interner with
  | nil => exact sound
  | cons request rest inductionHypothesis => exact inductionHypothesis (sound.answer request)

theorem kept?_answerAll_of_kept (requests : List InternRequest)
    (kept : interner.kept? other = some found) :
    (interner.answerAll requests).2.kept? other = some found := by
  induction requests generalizing interner with
  | nil => exact kept
  | cons request rest inductionHypothesis =>
    exact inductionHypothesis (kept?_answer_of_kept request kept)

/-- The answers of a run are what is kept for the requests in the end. -/
theorem map_some_answerAll (interner : Interner) (requests : List InternRequest) :
    (interner.answerAll requests).1.map some =
      requests.map (interner.answerAll requests).2.kept? := by
  induction requests generalizing interner with
  | nil => rfl
  | cons request rest inductionHypothesis =>
    have kept := kept?_answerAll_of_kept rest (interner.kept?_answer_self request)
    rw [List.map_cons, answerAll, List.map_cons, inductionHypothesis, kept]

theorem exists_kept_of_mem {requests : List InternRequest} (member : request ∈ requests) :
    ∃ found, (interner.answerAll requests).2.kept? request = some found := by
  have among := List.mem_map_of_mem member (f := (interner.answerAll requests).2.kept?)
  rw [← map_some_answerAll] at among
  obtain ⟨found, _, isFound⟩ := List.mem_map.mp among
  exact ⟨found, isFound.symm⟩

/-- In a run of requests there is one object for each request. Two answers are the same object
exactly if the requests are the same, and equal also if the requests spell one keyword with its
marker and without. -/
theorem exists_answerAll_eq_map (requests : List InternRequest) :
    ∃ object : InternRequest → Interned, (answerAll {} requests).1 = requests.map object ∧
      ∀ request ∈ requests, ∀ other ∈ requests,
        ((object request).serial = (object other).serial ↔ request = other) ∧
          ((object request).value = (object other).value ↔
            request = other ∨ request.Respelled other) := by
  let last := (answerAll {} requests).2
  let object := fun request => (last.kept? request).getD ⟨0, .null⟩
  have sound : last.Sound := sound_empty.answerAll requests
  have kept : ∀ request ∈ requests, last.kept? request = some (object request) := by
    intro request member
    obtain ⟨found, isKept⟩ : ∃ found, last.kept? request = some found := exists_kept_of_mem member
    simp only [object, isKept, Option.getD_some]
  refine ⟨object, ?_, fun request member other otherMember => ⟨⟨fun same => ?_, ?_⟩, ?_⟩⟩
  · refine List.map_inj_right (fun _ _ => Option.some.inj) |>.mp ?_
    rw [map_some_answerAll, List.map_map]
    exact List.map_congr_left kept
  · exact sound.eq_of_serial_eq (kept request member) (kept other otherMember) same
  · rintro rfl
    rfl
  · rw [sound.value_eq (kept request member), sound.value_eq (kept other otherMember),
      InternRequest.value_eq_iff]

/-- A symbol and two spellings of a keyword, the symbol asked for twice. -/
def respelled : List InternRequest := [.symbol "a", .keyword ":a", .keyword "a", .symbol "a"]

/-- The symbol is one object, and the two keywords are equal. -/
theorem exists_answerAll_eq_map_respelled :
    ∃ symbol marked bare : Interned,
      (answerAll {} respelled).1 = [symbol, marked, bare, symbol] ∧
        marked.value = bare.value ∧ marked.serial ≠ bare.serial ∧ symbol.value ≠ bare.value := by
  obtain ⟨object, answers, each⟩ := exists_answerAll_eq_map respelled
  have twice := each (.keyword ":a") (by decide) (.keyword "a") (by decide)
  have apart := each (.symbol "a") (by decide) (.keyword "a") (by decide)
  refine ⟨_, _, _, answers, twice.2.mpr (.inr (.unmarked ⟨rfl, by decide⟩)), ?_, ?_⟩
  · exact fun same => absurd (twice.1.mp same) (by decide)
  · intro same
    rcases apart.2.mp same with equal | respells
    · cases equal
    · cases respells

/-- Equal answers are not always one object. -/
theorem exists_value_eq_serial_ne :
    ∃ found ∈ (answerAll {} [.keyword "a", .keyword ":a"]).1,
      ∃ another ∈ (answerAll {} [.keyword "a", .keyword ":a"]).1,
        found.value = another.value ∧ found.serial ≠ another.serial :=
  ⟨⟨0, .keyword "a"⟩, by decide, ⟨1, .keyword "a"⟩, by decide, rfl, by decide⟩

end Interner

end SketchForm
