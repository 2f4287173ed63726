/-
This file proves that a string literal can be read back, whatever follows it.

A reader of literals goes from the opening quote to the first quote that no backslash
stands in front of, and takes the escapes back on its way. It finds exactly the text
that was written, so two literals with something behind each can only look alike if
the texts are the same and so is what follows.

The escapes can be put in for the whole text at a time, one kind after another, as long as
backslashes come first: those that the other two kinds bring in must not be taken for
backslashes of the text. After the last of them no line break is left.
-/
import SketchForm.Printer

namespace SketchForm

namespace Text

/-! ### A reader of literals -/

/-- The character that is written as this one behind a backslash. -/
def unescape? (mark : Char) : Option Char :=
  if mark = 'n' then some '\n'
  else if mark = '\\' ∨ mark = '"' then some mark
  else none

/-- Reads the rest of a literal, behind its opening quote: the text that is left of it, and what
follows the closing quote. -/
def scanInside? : List Char → Option (List Char × List Char)
  | '"' :: rest => some ([], rest)
  | '\\' :: mark :: rest => do
    let c ← unescape? mark
    let (content, behind) ← scanInside? rest
    pure (c :: content, behind)
  | c :: rest => do
    let (content, behind) ← scanInside? rest
    pure (c :: content, behind)
  | [] => none

theorem scanInside?_escapeChar (c : Char) (rest : List Char) :
    scanInside? (escapeChar c ++ rest) =
      (scanInside? rest).map fun found => (c :: found.1, found.2) := by
  by_cases isBackslash : c = '\\'
  · subst isBackslash
    show scanInside? ('\\' :: '\\' :: rest) = _
    rw [scanInside?]
    cases scanInside? rest <;> rfl
  by_cases isQuote : c = '"'
  · subst isQuote
    show scanInside? ('\\' :: '"' :: rest) = _
    rw [scanInside?]
    cases scanInside? rest <;> rfl
  by_cases isBreak : c = '\n'
  · subst isBreak
    show scanInside? ('\\' :: 'n' :: rest) = _
    rw [scanInside?]
    cases scanInside? rest <;> rfl
  rw [escapeChar, if_neg isBackslash, if_neg isQuote, if_neg isBreak]
  show scanInside? (c :: rest) = _
  rw [scanInside?]
  · cases scanInside? rest <;> rfl
  · exact isQuote
  · exact fun mark others same => absurd same isBackslash

theorem scanInside?_escape (content behind : List Char) :
    scanInside? (escape content ++ '"' :: behind) = some (content, behind) := by
  induction content with
  | nil => rfl
  | cons c rest inductionHypothesis =>
    rw [escape_cons, List.append_assoc, scanInside?_escapeChar, inductionHypothesis]
    rfl

theorem toList_literal (content : String) :
    (literal content).toList = '"' :: (escape content.toList ++ ['"']) :=
  String.toList_ofList

/-- Literals with the same characters, what follows them included, are of the same text. -/
theorem escape_append_inj {content other behind otherBehind : List Char}
    (same : escape content ++ '"' :: behind = escape other ++ '"' :: otherBehind) :
    content = other ∧ behind = otherBehind := by
  have read := scanInside?_escape content behind
  rw [same, scanInside?_escape other otherBehind] at read
  exact ⟨(congrArg Prod.fst (Option.some.inj read)).symm,
    (congrArg Prod.snd (Option.some.inj read)).symm⟩

/-- Reads a literal at the front of a text: what it stands for, and what follows it. -/
def scan? (text : String) : Option (String × String) :=
  match text.toList with
  | '"' :: rest =>
    (scanInside? rest).map fun found => (String.ofList found.1, String.ofList found.2)
  | _ => none

/-- A literal is read as the text it was written for, and what follows it is left. -/
theorem scan?_literal_append (content behind : String) :
    scan? (literal content ++ behind) = some (content, behind) := by
  have spelled : (literal content ++ behind).toList =
      '"' :: (escape content.toList ++ '"' :: behind.toList) := by
    rw [String.toList_append, toList_literal, List.cons_append, List.append_assoc]
    rfl
  rw [scan?, spelled]
  show (scanInside? (escape content.toList ++ '"' :: behind.toList)).map _ = _
  rw [scanInside?_escape, Option.map_some, String.ofList_toList, String.ofList_toList]

/-! ### Escapes of one kind after another -/

/-- A text with something else written for every occurrence of a character. -/
def replaceAll (c : Char) (written text : List Char) : List Char :=
  text.flatMap fun other => if other = c then written else [other]

theorem replaceAll_cons (c : Char) (written : List Char) (other : Char) (rest : List Char) :
    replaceAll c written (other :: rest) =
      (if other = c then written else [other]) ++ replaceAll c written rest := rfl

theorem replaceAll_append (c : Char) (written left right : List Char) :
    replaceAll c written (left ++ right) =
      replaceAll c written left ++ replaceAll c written right := List.flatMap_append

/-- A character that is not written anew is gone after it was replaced. -/
theorem notMem_replaceAll {c : Char} {written : List Char} (gone : c ∉ written)
    (text : List Char) : c ∉ replaceAll c written text := by
  intro member
  obtain ⟨other, _, among⟩ := List.mem_flatMap.mp member
  split at among
  · exact gone among
  · rename_i different
    exact different (List.mem_singleton.mp among).symm

theorem escape_eq_replaceAll (text : List Char) :
    escape text = replaceAll '\n' ['\\', 'n']
      (replaceAll '"' ['\\', '"'] (replaceAll '\\' ['\\', '\\'] text)) := by
  induction text with
  | nil => rfl
  | cons c rest inductionHypothesis =>
    rw [escape_cons, inductionHypothesis, replaceAll_cons '\\', replaceAll_append, replaceAll_append]
    refine congrArg (· ++ _) ?_
    by_cases isBackslash : c = '\\'
    · subst isBackslash
      rfl
    by_cases isQuote : c = '"'
    · subst isQuote
      rfl
    by_cases isBreak : c = '\n'
    · subst isBreak
      rfl
    simp [escapeChar, replaceAll, isBackslash, isQuote, isBreak]

/-- No literal holds a raw line break. -/
theorem newline_notMem_literal (content : String) : '\n' ∉ (literal content).toList := by
  rw [toList_literal, escape_eq_replaceAll]
  simp [notMem_replaceAll]

end Text

/-! ### Texts as they are printed -/

namespace Store

variable {store : Store} {ref : Ref} {content : String}

theorem print_text (isText : store.objects.look ref = .scalar (.text content)) :
    store.print true ref = (.ok (Text.literal content), store) := by
  cases ref with
  | scalar value =>
    cases isText
    rfl
  | object id =>
    simp only [print, Objects.depth, Printing.print, isText, Group.ofObject?]
    rfl

/-- A text is printed readably as a literal without a raw line break. Whatever stands behind it, the
literal is read as that text, and what stands behind it is left. -/
theorem scan?_print (isText : store.objects.look ref = .scalar (.text content)) (behind : String) :
    ∃ printed, store.print true ref = (.ok printed, store) ∧
      Text.scan? (printed ++ behind) = some (content, behind) ∧ '\n' ∉ printed.toList :=
  ⟨_, print_text isText, Text.scan?_literal_append content behind,
    Text.newline_notMem_literal content⟩

/-- A text of a backslash, a quote, a line break and a backslash, with a quote behind its literal. -/
theorem scan?_print_backslashAtEnd :
    (print {} true (.scalar (.text "\\\"\n\\"))).1 = .ok "\"\\\\\\\"\\n\\\\\"" ∧
      Text.scan? ("\"\\\\\\\"\\n\\\\\"" ++ "\"n") = some ("\\\"\n\\", "\"n") := by
  have spelled : (print {} true (.scalar (.text "\\\"\n\\"))).1 =
      .ok "\"\\\\\\\"\\n\\\\\"" := rfl
  obtain ⟨printed, prints, read, _⟩ :=
    @scan?_print {} (.scalar (.text "\\\"\n\\")) "\\\"\n\\" rfl "\"n"
  rw [prints] at spelled
  cases spelled
  exact ⟨congrArg Prod.fst prints, read⟩

end Store

end SketchForm
