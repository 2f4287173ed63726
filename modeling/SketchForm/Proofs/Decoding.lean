/-
This file proves that source text determines the value it was printed from.

Every value begins in its own way: a text with a double quote, a node with its bracket,
a quotation with its mark, and a word with none of these. So the first character says
which kind of value is there, and the closing quote, the closing bracket or the first
delimiter behind a word says where it ends. Two values with something behind each can
therefore be taken apart side by side, from the outside in. Forms headed by one of the
marks with two arguments are left out: nothing stands between their arguments, and
words that meet run together.
-/
import SketchForm.Proofs.Coherence
import SketchForm.Proofs.Literal
import SketchForm.Proofs.SingleWord

namespace SketchForm

open Text

namespace Tree

/-! ### Values that can be read back -/

/-- Whether a value is made of words and texts by lists, vectors and maps, without lists that put
two arguments behind a mark. -/
inductive Legible : Tree Float → Prop
  | word {value : Scalar} (isWord : value.IsWord) : Legible (.scalar value)
  | text (content : String) : Legible (.scalar (.text content))
  | list {items : List (Tree Float)} (each : ∀ item ∈ items, Legible item)
      (apart : ∀ name second third, items = [.scalar (.symbol name), second, third] →
        name ∉ ["ui-annotate", "with-meta-sugar"]) : Legible (.sequence .list items)
  | vector {items : List (Tree Float)} (each : ∀ item ∈ items, Legible item) :
      Legible (.sequence .vector items)
  | map {entries : List (Tree Float × Tree Float)} (keys : ∀ entry ∈ entries, Legible entry.1)
      (values : ∀ entry ∈ entries, Legible entry.2) : Legible (.table .map entries)

/-- The characters of the source of a value. -/
def spelling (tree : Tree Float) : List Char := (tree.source true).toList

/-- The characters of the sources of values, with a space between any two. -/
def spaced : List (Tree Float) → List Char
  | [] => []
  | tree :: rest => tree.spelling ++ rest.flatMap fun other => ' ' :: other.spelling

theorem toList_intercalate_source (items : List (Tree Float)) :
    (" ".intercalate (items.map (source true))).toList = spaced items := by
  cases items with
  | nil => rfl
  | cons item rest =>
    rw [List.map_cons, intercalate_space_cons, String.toList_append, String.toList_join,
      List.map_map, List.flatMap_map]
    have spaces : ∀ other : Tree Float,
        ((" " ++ ·) (other.source true)).toList = ' ' :: other.spelling :=
      fun other => String.toList_append
    exact congrArg (item.spelling ++ ·) (List.flatMap_congr fun other _ => spaces other)

/-! ### How values are spelled -/

theorem toList_bracketed (opening closing : String) (items : List (Tree Float)) :
    (opening ++ " ".intercalate (items.map (source true)) ++ closing).toList =
      opening.toList ++ (spaced items ++ closing.toList) := by
  rw [String.toList_append, String.toList_append, toList_intercalate_source, List.append_assoc]

theorem spelling_text (content : String) :
    spelling (.scalar (.text content)) = '"' :: (escape content.toList ++ ['"']) :=
  toList_literal content

theorem spelling_vector (items : List (Tree Float)) :
    spelling (.sequence .vector items) = '[' :: (spaced items ++ [']']) := by
  rw [spelling, source, sources_eq_map]
  exact toList_bracketed "[" "]" items

/-- The keys and values of a table, by turns. -/
def alternate (entries : List (Tree Float × Tree Float)) : List (Tree Float) :=
  entries.flatMap fun entry => [entry.1, entry.2]

theorem spelling_map (entries : List (Tree Float × Tree Float)) :
    spelling (.table .map entries) = '\x7b' :: (spaced (alternate entries) ++ ['\x7d']) := by
  have sources : entrySources true entries = (alternate entries).map (source true) := by
    rw [entrySources_eq_flatMap, alternate, List.map_flatMap]
    rfl
  rw [spelling, source, sources]
  exact toList_bracketed "\x7b" "\x7d" (alternate entries)

theorem spelling_list {items : List (Tree Float)} (plain : shortForm? items = none) :
    spelling (.sequence .list items) = '(' :: (spaced items ++ [')']) := by
  rw [spelling, source]
  show (roundSource (shortForm? items) (sources true items)).toList = _
  rw [plain, sources_eq_map]
  exact toList_bracketed "(" ")" items

theorem spelling_quote (argument : Tree Float) :
    spelling (.sequence .list [.scalar (.symbol "quote"), argument]) =
      '\'' :: argument.spelling := by
  rw [spelling, source]
  show ("'" ++ String.join [argument.source true]).toList = _
  rw [String.toList_append, String.toList_join, List.flatMap_singleton]
  rfl

/-- A list in short form is a quotation or puts two arguments behind a mark. -/
theorem quotation_or_pair_of_shortForm? {items : List (Tree Float)} {sugar : Sugar}
    (short : shortForm? items = some sugar) :
    (∃ argument, items = [.scalar (.symbol "quote"), argument]) ∨
      ∃ name ∈ ["ui-annotate", "with-meta-sugar"], ∃ first second,
        items = [.scalar (.symbol name), first, second] := by
  obtain ⟨head, isHead, short⟩ := Option.bind_eq_some_iff.mp short
  obtain ⟨first, isFirst, isScalar⟩ := Option.bind_eq_some_iff.mp isHead
  have scalar : first = .scalar head := by
    cases first <;> cases isScalar
    rfl
  obtain ⟨rest, rfl⟩ := List.head?_eq_some_iff.mp isFirst
  subst scalar
  rcases Sugar.ofSequence?_eq_some short with ⟨rfl, count, _⟩ | ⟨rfl, count, _⟩ | ⟨rfl, count, _⟩
  · obtain ⟨argument, rfl⟩ := List.length_eq_one_iff.mp (Nat.succ_injective count)
    exact .inl ⟨argument, rfl⟩
  · obtain ⟨second, third, rfl⟩ := List.length_eq_two.mp (Nat.succ_injective count)
    exact .inr ⟨_, by decide, second, third, rfl⟩
  · obtain ⟨second, third, rfl⟩ := List.length_eq_two.mp (Nat.succ_injective count)
    exact .inr ⟨_, by decide, second, third, rfl⟩

/-- The only short form of a legible list is a quotation. -/
theorem eq_quote_of_shortForm? {items : List (Tree Float)} {sugar : Sugar}
    (apart : ∀ name second third, items = [.scalar (.symbol name), second, third] →
      name ∉ ["ui-annotate", "with-meta-sugar"])
    (short : shortForm? items = some sugar) :
    ∃ argument, items = [.scalar (.symbol "quote"), argument] := by
  rcases quotation_or_pair_of_shortForm? short with quotation |
    ⟨name, isMark, second, third, isPair⟩
  · exact quotation
  · exact absurd isMark (apart name second third isPair)

/-! ### How values begin -/

/-- The brackets that end a node. -/
def closings : List Char := [')', ']', '\x7d']

/-- The character that says which kind of value is there; words have none. -/
def opening : Tree Float → Option Char
  | .scalar (.text _) => some '"'
  | .sequence .list items => if (shortForm? items).isSome then some '\'' else some '('
  | .sequence .vector _ => some '['
  | .table _ _ => some '\x7b'
  | _ => none

theorem opening_word {value : Scalar} (isWord : value.IsWord) :
    opening (.scalar value) = none := by
  cases isWord <;> rfl

/-- A value begins with the character that says its kind, or with one that says nothing. -/
theorem exists_head_spelling {tree : Tree Float} (legible : tree.Legible) :
    ∃ c, tree.spelling.head? = some c ∧ c ∉ ' ' :: closings ∧
      tree.opening = if c ∈ delimiters ∨ c = '\'' then some c else none := by
  cases legible with
  | word isWord =>
    obtain ⟨c, isHead, notDelimiter, notQuote⟩ := Scalar.exists_head_of_isWord isWord
    have ends : ∀ c ∈ ' ' :: closings, c ∈ delimiters := List.all_iff_forall_prop.mp (by decide)
    refine ⟨c, isHead, fun isEnd => notDelimiter (ends c isEnd), ?_⟩
    rw [opening_word isWord, if_neg (not_or.mpr ⟨notDelimiter, notQuote⟩)]
  | text content =>
    rw [spelling_text]
    exact ⟨'"', rfl, by decide, rfl⟩
  | list each apart =>
    rename_i items
    rw [opening]
    cases short : shortForm? items with
    | none =>
      rw [spelling_list short]
      exact ⟨'(', rfl, by decide, rfl⟩
    | some sugar =>
      obtain ⟨argument, rfl⟩ := eq_quote_of_shortForm? apart short
      rw [spelling_quote]
      exact ⟨'\'', rfl, by decide, rfl⟩
  | vector each =>
    rw [spelling_vector]
    exact ⟨'[', rfl, by decide, rfl⟩
  | map keys values =>
    rw [spelling_map]
    exact ⟨'\x7b', rfl, by decide, rfl⟩

/-- Values that look alike are of the same kind, whatever follows them. -/
theorem opening_eq_of_append_eq {tree other : Tree Float} (legible : tree.Legible)
    (otherLegible : other.Legible) {rest otherRest : List Char}
    (same : tree.spelling ++ rest = other.spelling ++ otherRest) :
    tree.opening = other.opening := by
  obtain ⟨c, isHead, _, opens⟩ := exists_head_spelling legible
  obtain ⟨otherChar, isOtherHead, _, otherOpens⟩ := exists_head_spelling otherLegible
  have heads := congrArg List.head? same
  rw [List.head?_append, List.head?_append, isHead, isOtherHead] at heads
  cases heads
  rw [opens, otherOpens]

/-! ### Taking values apart side by side -/

/-- Whether a value can be told from any other, with something behind each. -/
def Decodes (tree : Tree Float) : Prop :=
  ∀ other : Tree Float, other.Legible → ∀ rest otherRest, Ends rest → Ends otherRest →
    tree.spelling ++ rest = other.spelling ++ otherRest → tree = other ∧ rest = otherRest

/-- Whether a text is over or goes on with a space or a closing bracket. -/
def Stops (rest : List Char) : Prop := ∀ c ∈ rest.head?, c ∈ ' ' :: closings

theorem Stops.ends {rest : List Char} (stops : Stops rest) : Ends rest := by
  have delimits : ∀ c ∈ ' ' :: closings, c ∈ delimiters := List.all_iff_forall_prop.mp (by decide)
  exact fun c isHead => delimits c (stops c isHead)

/-- Whether a value can be told from any value of a kind, where both texts stop behind it. -/
def ToldFrom (kind : Tree Float → Prop) (tree : Tree Float) : Prop :=
  ∀ other : Tree Float, kind other → ∀ rest otherRest, Stops rest → Stops otherRest →
    tree.spelling ++ rest = other.spelling ++ otherRest → tree = other ∧ rest = otherRest

theorem Decodes.toldFrom {tree : Tree Float} (decodes : tree.Decodes) : tree.ToldFrom Legible :=
  fun other legible rest otherRest stops otherStops =>
    decodes other legible rest otherRest stops.ends otherStops.ends

/-- Whether a value begins with neither a space nor a closing bracket. -/
def Begins (tree : Tree Float) : Prop := ∃ c, tree.spelling.head? = some c ∧ c ∉ ' ' :: closings

theorem Legible.begins {tree : Tree Float} (legible : tree.Legible) : tree.Begins := by
  obtain ⟨c, isHead, begins, _⟩ := exists_head_spelling legible
  exact ⟨c, isHead, begins⟩

theorem Begins.not_stops {tree : Tree Float} (begins : tree.Begins) (behind : List Char) :
    ¬ Stops (tree.spelling ++ behind) := by
  obtain ⟨c, isHead, notEnd⟩ := begins
  intro stops
  refine notEnd (stops c ?_)
  rw [List.head?_append, isHead]
  rfl

theorem stops_flatMap (items : List (Tree Float)) {closing : Char} (isClosing : closing ∈ closings)
    (rest : List Char) :
    Stops ((items.flatMap fun item => ' ' :: item.spelling) ++ closing :: rest) := by
  intro c isHead
  cases items with
  | nil =>
    cases isHead
    exact List.mem_cons_of_mem _ isClosing
  | cons item items =>
    cases isHead
    exact List.mem_cons_self

section Spaced

variable {kind : Tree Float → Prop} {items others : List (Tree Float)} {closing : Char}
variable {rest otherRest : List Char}

/-- Values with a space in front of each can be told apart up to the bracket behind them. -/
theorem flatMap_append_inj (each : ∀ item ∈ items, item.ToldFrom kind)
    (ofKind : ∀ other ∈ others, kind other) (isClosing : closing ∈ closings)
    (same : (items.flatMap fun item => ' ' :: item.spelling) ++ closing :: rest =
      (others.flatMap fun other => ' ' :: other.spelling) ++ closing :: otherRest) :
    items = others ∧ rest = otherRest := by
  have noSpace : ' ' ∉ closings := by decide
  induction items generalizing others with
  | nil =>
    cases others with
    | nil => exact ⟨rfl, (List.cons_eq_cons.mp same).2⟩
    | cons other others => exact absurd ((List.cons_eq_cons.mp same).1 ▸ isClosing) noSpace
  | cons item items inductionHypothesis =>
    cases others with
    | nil => exact absurd ((List.cons_eq_cons.mp same).1 ▸ isClosing) noSpace
    | cons other others =>
      rw [List.forall_mem_cons] at each ofKind
      rw [List.flatMap_cons, List.flatMap_cons, List.append_assoc, List.append_assoc] at same
      obtain ⟨sameItem, sameRest⟩ := each.1 other ofKind.1 _ _ (stops_flatMap items isClosing rest)
        (stops_flatMap others isClosing otherRest) (List.cons_eq_cons.mp same).2
      obtain ⟨sameItems, sameEnd⟩ := inductionHypothesis each.2 ofKind.2 sameRest
      exact ⟨List.cons_eq_cons.mpr ⟨sameItem, sameItems⟩, sameEnd⟩

/-- No value begins with a closing bracket. -/
theorem spelling_append_ne {tree : Tree Float} (begins : tree.Begins)
    (isClosing : closing ∈ closings) (behind rest : List Char) :
    tree.spelling ++ behind ≠ closing :: rest := by
  intro same
  refine begins.not_stops behind fun c isHead => ?_
  rw [same] at isHead
  cases isHead
  exact List.mem_cons_of_mem _ isClosing

/-- Values with a space between any two can be told apart up to the bracket behind them. -/
theorem spaced_append_inj (each : ∀ item ∈ items, item.ToldFrom kind)
    (itemsBegin : ∀ item ∈ items, item.Begins) (ofKind : ∀ other ∈ others, kind other)
    (othersBegin : ∀ other ∈ others, other.Begins) (isClosing : closing ∈ closings)
    (same : spaced items ++ closing :: rest = spaced others ++ closing :: otherRest) :
    items = others ∧ rest = otherRest := by
  cases items with
  | nil =>
    cases others with
    | nil => exact ⟨rfl, (List.cons_eq_cons.mp same).2⟩
    | cons other others =>
      rw [spaced, spaced, List.append_assoc] at same
      exact absurd same.symm
        (spelling_append_ne (othersBegin other List.mem_cons_self) isClosing _ _)
  | cons item items =>
    cases others with
    | nil =>
      rw [spaced, spaced, List.append_assoc] at same
      exact absurd same (spelling_append_ne (itemsBegin item List.mem_cons_self) isClosing _ _)
    | cons other others =>
      rw [List.forall_mem_cons] at each ofKind
      rw [spaced, spaced, List.append_assoc, List.append_assoc] at same
      obtain ⟨sameItem, sameRest⟩ := each.1 other ofKind.1 _ _ (stops_flatMap items isClosing rest)
        (stops_flatMap others isClosing otherRest) same
      obtain ⟨sameItems, sameEnd⟩ := flatMap_append_inj each.2 ofKind.2 isClosing sameRest
      exact ⟨List.cons_eq_cons.mpr ⟨sameItem, sameItems⟩, sameEnd⟩

end Spaced

/-- Nodes in the same brackets can be told apart if their members can. -/
theorem bracketed_append_inj {items others : List (Tree Float)}
    (each : ∀ item ∈ items, item.Legible ∧ item.Decodes)
    (legible : ∀ other ∈ others, other.Legible) {bracket closing : Char}
    (isClosing : closing ∈ closings) {rest otherRest : List Char}
    (same : bracket :: (spaced items ++ [closing]) ++ rest =
      bracket :: (spaced others ++ [closing]) ++ otherRest) :
    items = others ∧ rest = otherRest := by
  rw [List.cons_append, List.cons_append, List.append_assoc, List.append_assoc] at same
  exact spaced_append_inj (fun item member => (each item member).2.toldFrom)
    (fun item member => (each item member).1.begins) legible
    (fun other member => (legible other member).begins) isClosing (List.cons_eq_cons.mp same).2

theorem forall_mem_alternate {property : Tree Float → Prop}
    {entries : List (Tree Float × Tree Float)} (keys : ∀ entry ∈ entries, property entry.1)
    (values : ∀ entry ∈ entries, property entry.2) : ∀ tree ∈ alternate entries, property tree := by
  intro tree member
  obtain ⟨entry, isEntry, among⟩ := List.mem_flatMap.mp member
  rcases List.mem_pair.mp among with rfl | rfl
  · exact keys entry isEntry
  · exact values entry isEntry

theorem alternate_injective : Function.Injective alternate := by
  intro entries others same
  induction entries generalizing others with
  | nil =>
    cases others with
    | nil => rfl
    | cons other others => cases same
  | cons entry entries inductionHypothesis =>
    cases others with
    | nil => cases same
    | cons other others =>
      obtain ⟨sameKey, sameBehind⟩ := List.cons_eq_cons.mp same
      obtain ⟨sameValue, sameRest⟩ := List.cons_eq_cons.mp sameBehind
      rw [inductionHypothesis sameRest, Prod.ext sameKey sameValue]

theorem decodes_word {value : Scalar} (isWord : value.IsWord) : Decodes (.scalar value) := by
  intro other otherLegible rest otherRest ends otherEnds same
  have kind := opening_eq_of_append_eq (.word isWord) otherLegible same
  cases otherLegible with
  | word isOtherWord =>
    obtain ⟨sameWord, sameRest⟩ := append_inj_of_solid (Scalar.solid_of_isWord isWord)
      (Scalar.solid_of_isWord isOtherWord) ends otherEnds same
    refine ⟨?_, sameRest⟩
    rw [← Scalar.ofWord_source isWord, String.toList_inj.mp sameWord,
      Scalar.ofWord_source isOtherWord]
  | _ => grind [opening, opening_word]

theorem decodes_text (content : String) : Decodes (.scalar (.text content)) := by
  intro other otherLegible rest otherRest ends otherEnds same
  have kind := opening_eq_of_append_eq (.text content) otherLegible same
  cases otherLegible with
  | text otherContent =>
    rw [spelling_text, spelling_text, List.cons_append, List.cons_append, List.append_assoc,
      List.append_assoc] at same
    obtain ⟨sameContent, sameRest⟩ := escape_append_inj (List.cons_eq_cons.mp same).2
    rw [String.toList_inj.mp sameContent]
    exact ⟨rfl, sameRest⟩
  | _ => grind [opening, opening_word]

/-- A list is told from other lists by its form first: in brackets by its members, and as a
quotation by what is quoted. -/
theorem decodes_list {items : List (Tree Float)}
    (apart : ∀ name second third, items = [.scalar (.symbol name), second, third] →
      name ∉ ["ui-annotate", "with-meta-sugar"])
    (each : ∀ item ∈ items, item.Legible ∧ item.Decodes) : Decodes (.sequence .list items) := by
  intro other otherLegible rest otherRest ends otherEnds same
  have kind := opening_eq_of_append_eq (.list (fun item member => (each item member).1) apart)
    otherLegible same
  cases otherLegible with
  | list othersLegible otherApart =>
    rename_i others
    cases short : shortForm? items with
    | none =>
      cases otherShort : shortForm? others with
      | none =>
        rw [spelling_list short, spelling_list otherShort] at same
        obtain ⟨rfl, sameRest⟩ := bracketed_append_inj each othersLegible (by decide) same
        exact ⟨rfl, sameRest⟩
      | some sugar => grind [opening]
    | some sugar =>
      cases otherShort : shortForm? others with
      | none => grind [opening]
      | some otherSugar =>
        obtain ⟨argument, rfl⟩ := eq_quote_of_shortForm? apart short
        obtain ⟨otherArgument, rfl⟩ := eq_quote_of_shortForm? otherApart otherShort
        rw [spelling_quote, spelling_quote] at same
        have decodes := (each argument (List.mem_cons_of_mem _ List.mem_cons_self)).2
        have otherLegible :=
          othersLegible otherArgument (List.mem_cons_of_mem _ List.mem_cons_self)
        obtain ⟨rfl, sameRest⟩ := decodes otherArgument otherLegible rest otherRest ends otherEnds
          (List.cons_eq_cons.mp same).2
        exact ⟨rfl, sameRest⟩
  | _ => grind [opening, opening_word]

theorem decodes_vector {items : List (Tree Float)}
    (each : ∀ item ∈ items, item.Legible ∧ item.Decodes) : Decodes (.sequence .vector items) := by
  intro other otherLegible rest otherRest ends otherEnds same
  have kind := opening_eq_of_append_eq (.vector fun item member => (each item member).1)
    otherLegible same
  cases otherLegible with
  | vector othersLegible =>
    rw [spelling_vector, spelling_vector] at same
    obtain ⟨rfl, sameRest⟩ := bracketed_append_inj each othersLegible (by decide) same
    exact ⟨rfl, sameRest⟩
  | _ => grind [opening, opening_word]

theorem decodes_map {entries : List (Tree Float × Tree Float)}
    (keys : ∀ entry ∈ entries, entry.1.Legible ∧ entry.1.Decodes)
    (values : ∀ entry ∈ entries, entry.2.Legible ∧ entry.2.Decodes) :
    Decodes (.table .map entries) := by
  intro other otherLegible rest otherRest ends otherEnds same
  have kind := opening_eq_of_append_eq (.map (fun entry member => (keys entry member).1)
    fun entry member => (values entry member).1) otherLegible same
  cases otherLegible with
  | map otherKeys otherValues =>
    rw [spelling_map, spelling_map] at same
    obtain ⟨sameEntries, sameRest⟩ := bracketed_append_inj (forall_mem_alternate keys values)
      (forall_mem_alternate otherKeys otherValues) (by decide) same
    rw [alternate_injective sameEntries]
    exact ⟨rfl, sameRest⟩
  | _ => grind [opening, opening_word]

/-- Every legible value can be told from any other. -/
theorem Legible.decodes {tree : Tree Float} (legible : tree.Legible) : tree.Decodes := by
  induction legible with
  | word isWord => exact decodes_word isWord
  | text content => exact decodes_text content
  | list each apart inductionHypothesis =>
    exact decodes_list apart fun item member => ⟨each item member, inductionHypothesis item member⟩
  | vector each inductionHypothesis =>
    exact decodes_vector fun item member => ⟨each item member, inductionHypothesis item member⟩
  | map keys values keysHypothesis valuesHypothesis =>
    exact decodes_map (fun entry member => ⟨keys entry member, keysHypothesis entry member⟩)
      fun entry member => ⟨values entry member, valuesHypothesis entry member⟩

/-- Legible values have different sources if they are different. -/
theorem source_injective_of_legible {tree other : Tree Float} (legible : tree.Legible)
    (otherLegible : other.Legible) (same : tree.source true = other.source true) :
    tree = other := by
  have nothing : Ends [] := nofun
  have spelled : tree.spelling ++ [] = other.spelling ++ [] := by rw [spelling, same, spelling]
  exact (legible.decodes other otherLegible [] [] nothing nothing spelled).1

end Tree

/-- Readable text printed of a value on which nothing is noted determines the value, if it is made
of words, texts, lists, vectors and maps. -/
theorem eq_of_print_eq {store other : Store} (fresh : ∀ id, store.memos id = {})
    (otherFresh : ∀ id, other.memos id = {}) {ref otherRef : Ref} {tree otherTree : Tree Float}
    (isTree : store.tree ref = .ok tree) (isOtherTree : other.tree otherRef = .ok otherTree)
    (legible : tree.Legible) (otherLegible : otherTree.Legible) {text : String}
    (printed : (store.print true ref).1 = .ok text)
    (otherPrinted : (other.print true otherRef).1 = .ok text) : tree = otherTree := by
  have isSource := Store.eq_source_of_print fresh isTree printed
  have isOtherSource := Store.eq_source_of_print otherFresh isOtherTree otherPrinted
  exact Tree.source_injective_of_legible legible otherLegible (isSource.symm.trans isOtherSource)

/-- A quotation of a symbol, twice in a vector. -/
def quotedTwice : Tree Float :=
  let quoted := .sequence .list [.scalar (.symbol "quote"), .scalar (.symbol "a")]
  .sequence .vector [quoted, quoted]

/-- That vector with one object for both quotations. -/
def sharedQuotation : Store where
  objects := #[.sequence .list [.scalar (.symbol "quote"), .scalar (.symbol "a")],
    .sequence .vector [.object 0, .object 0]]

/-- That vector with an object for each quotation. -/
def separateQuotations : Store where
  objects := #[.sequence .list [.scalar (.symbol "quote"), .scalar (.symbol "a")],
    .sequence .list [.scalar (.symbol "quote"), .scalar (.symbol "a")],
    .sequence .vector [.object 0, .object 1]]

theorem legible_quotedTwice : quotedTwice.Legible := by
  have isQuote : Scalar.IsWord (.symbol "quote") :=
    .symbol "quote" ⟨by decide, List.all_iff_forall_prop.mp (by decide)⟩
      (fun c isHead => by cases isHead; decide) (by decide)
      fun n => (toString_ne_of_mem n (c := 'q') (by decide) (by decide)).symm
  have isSymbol : Scalar.IsWord (.symbol "a") :=
    .symbol "a" ⟨by decide, List.all_iff_forall_prop.mp (by decide)⟩
      (fun c isHead => by cases isHead; decide) (by decide)
      fun n => (toString_ne_of_mem n (c := 'a') (by decide) (by decide)).symm
  have quotation : (Tree.sequence .list
      [.scalar (.symbol "quote"), .scalar (.symbol "a")] : Tree Float).Legible := by
    refine .list ?_ fun name second third three => by cases three
    exact List.forall_mem_cons.mpr ⟨.word isQuote, List.forall_mem_singleton.mpr (.word isSymbol)⟩
  exact .vector (List.forall_mem_cons.mpr ⟨quotation, List.forall_mem_singleton.mpr quotation⟩)

theorem eq_of_print_eq_quotedTwice :
    (sharedQuotation.print true (.object 1)).1 = .ok "['a 'a]" ∧
      (separateQuotations.print true (.object 2)).1 = .ok "['a 'a]" ∧
      sharedQuotation.tree (.object 1) = separateQuotations.tree (.object 2) := by
  have shared : (sharedQuotation.print true (.object 1)).1 = .ok "['a 'a]" := rfl
  have separate : (separateQuotations.print true (.object 2)).1 = .ok "['a 'a]" := rfl
  refine ⟨shared, separate, ?_⟩
  have isTree : sharedQuotation.tree (.object 1) = .ok quotedTwice := rfl
  have isOtherTree : separateQuotations.tree (.object 2) = .ok quotedTwice := rfl
  have same := eq_of_print_eq (fun _ => rfl) (fun _ => rfl) isTree isOtherTree
    legible_quotedTwice legible_quotedTwice shared separate
  exact isTree.trans ((congrArg Except.ok same).trans isOtherTree.symm)

end SketchForm
