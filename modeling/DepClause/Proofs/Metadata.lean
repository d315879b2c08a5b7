import DepClause.Metadata
import DepClause.Proofs.Text.Lines
import DepClause.Proofs.Text.Trim
import Mathlib.Data.List.Basic
import Mathlib.Data.List.Induction

/-!
# Header texts

The metadata of a header text are those of its header lines: of each text field the last value, of
each list field all values. A line that goes on in an indented line is read as if it ended there.
So writing the two on one line leaves the metadata as they are just where the line that comes of it
is not read, or what it says is said again, or was said before.
-/

namespace DepClause

namespace Metadata

open Text

/-! ## Header lines -/

/-- The field and the value of a line; nothing of an indented line or one without a colon. -/
def header? (line : List Char) : Option (String × String) :=
  match line with
  | [] => none
  | c :: _ =>
    if isBlank c then none
    else (splitFirst? ':' line).map fun (field, value) =>
      (lowerCase (String.ofList (Text.trim field)), String.ofList (Text.trim value))

theorem withLine_eq (m : Metadata) (line : List Char) :
    m.withLine line = match header? line with
      | none => m
      | some (field, value) => m.withField field value := by
  cases line with
  | nil => rfl
  | cons c cs =>
    rw [withLine, header?]
    split
    · rfl
    · cases splitFirst? ':' (c :: cs) <;> rfl

/-- The values of a field, from the first line to the last. -/
def values (field : String) (lines : List (List Char)) : List String :=
  lines.filterMap fun line => (header? line).bind fun (name, value) =>
    if name = field then some value else none

theorem values_append (field : String) (above below : List (List Char)) :
    values field (above ++ below) = values field above ++ values field below :=
  List.filterMap_append

/-- What header lines say before the extras are completed. -/
def given (lines : List (List Char)) : Metadata where
  name := (values "name" lines).getLast?
  version := (values "version" lines).getLast?
  requiresPython := (values "requires-python" lines).getLast?
  requiresDist := values "requires-dist" lines
  providesExtra := values "provides-extra" lines

theorem foldl_withLine (lines : List (List Char)) : lines.foldl withLine {} = given lines := by
  induction lines using List.reverseRecOn with
  | nil => rfl
  | append_singleton lines line ih =>
    rw [List.foldl_append, ih, List.foldl_cons, List.foldl_nil, withLine_eq]
    simp only [given, values_append]
    cases h : header? line with
    | none => simp [values, h]
    | some found =>
      obtain ⟨field, value⟩ := found
      dsimp only
      unfold withField
      split <;> simp_all [values]

/-- The extras of header lines: those that they list, else those that the requirements name. -/
def provided (lines : List (List Char)) : List String :=
  if values "provides-extra" lines = [] then extrasOf (values "requires-dist" lines)
  else values "provides-extra" lines

/-- The metadata that header lines describe. -/
def described (lines : List (List Char)) : Metadata :=
  { given lines with providesExtra := provided lines }

theorem parseText_eq (text : String) : parseText text = described (headerLines text) := by
  rw [parseText, foldl_withLine]
  simp only [described, provided, given, List.isEmpty_iff]
  split <;> rfl

/-! ## Lines that go on -/

theorem header?_of_indented {c : Char} (hc : isBlank c = true) (cs : List Char) :
    header? (c :: cs) = none := if_pos hc

theorem header?_of_not_mem {line : List Char} (h : ':' ∉ line) : header? line = none := by
  cases line with
  | nil => rfl
  | cons c cs =>
    rw [header?, splitFirst?_eq_none h]
    exact ite_self _

theorem header?_append_cons {field : List Char} (h : ':' ∉ field)
    (visible : ∀ c ∈ field.head?, isBlank c = false) (value : List Char) :
    header? (field ++ ':' :: value)
      = some (lowerCase (String.ofList (Text.trim field)),
          String.ofList (Text.trim value)) := by
  have cut := splitFirst?_append_cons h value
  cases field with
  | nil => rfl
  | cons c cs =>
    have hc : ¬isBlank c = true := by
      rw [visible c rfl]
      exact Bool.false_ne_true
    rw [List.cons_append] at cut ⊢
    rw [header?, if_neg hc, cut]
    rfl

/-- A value that goes on behind a blank is another one. -/
theorem trim_ne_of_goes_on {c : Char} (hc : isBlank c = false) (value rest : List Char) :
    String.ofList (Text.trim value) ≠ String.ofList (Text.trim (value ++ ' ' :: c :: rest)) := by
  intro same
  have lengths := congrArg List.length (String.ofList_injective same)
  have spaced : value ++ ' ' :: c :: rest = (value ++ [' ']) ++ c :: rest := by simp
  have shorter : (Text.trim value).length ≤ (trimLeft (value ++ [' '])).length := by
    calc (Text.trim value).length
        = (trimRight (trimLeft (value ++ [' ']))).length := by
          rw [← Text.trim, trim_append_blank (by decide)]
      _ ≤ (trimLeft (value ++ [' '])).length := by
          simpa [trimRight] using length_dropWhile_le isBlank (trimLeft (value ++ [' '])).reverse
  rw [spaced, trim_append_cons hc, List.length_append, List.length_cons] at lengths
  omega

/-- A line that goes on behind a blank says another value of the same field, if it was a header
line. -/
theorem header?_goes_on {c : Char} (hc : isBlank c = false) (line rest : List Char) :
    header? line = none ∨ ∃ field value longer, value ≠ longer
      ∧ header? line = some (field, value)
      ∧ header? (line ++ ' ' :: c :: rest) = some (field, longer) := by
  by_cases colon : ':' ∈ line
  · obtain ⟨name, behind, rfl, first⟩ := List.eq_append_cons_of_mem colon
    by_cases visible : ∀ d ∈ name.head?, isBlank d = false
    · right
      refine ⟨_, _, _, trim_ne_of_goes_on hc behind rest, header?_append_cons first visible behind, ?_⟩
      rw [List.append_assoc, List.cons_append, header?_append_cons first visible]
    · left
      cases name with
      | nil => exact absurd (fun d hd => by cases hd) visible
      | cons d name =>
        refine header?_of_indented ?_ _
        simpa using visible
  · exact .inl (header?_of_not_mem colon)

/-- The fields of which the last value counts. -/
def textFields : List String := ["name", "version", "requires-python"]

/-- The fields of which all values count. -/
def listFields : List String := ["requires-dist", "provides-extra"]

theorem described_eq_iff {ls ks : List (List Char)} :
    described ls = described ks ↔
      (∀ field ∈ textFields, (values field ls).getLast? = (values field ks).getLast?)
        ∧ values "requires-dist" ls = values "requires-dist" ks ∧ provided ls = provided ks := by
  simp [described, given, textFields, and_assoc]

/-- The ways in which what a line says does not count that takes the place of another one, between
the lines above and those below. -/
inductive Absorbed (above : List (List Char)) (line : List Char) (below : List (List Char)) :
    Option (String × String) → Prop
  | nothing : Absorbed above line below none
  | unread {field value : String} (text : field ∉ textFields) (list : field ∉ listFields) :
      Absorbed above line below (some (field, value))
  | again {field value : String} (text : field ∈ textFields) (later : values field below ≠ []) :
      Absorbed above line below (some (field, value))
  | known {field value : String} (text : field ∈ textFields)
      (before : (values field (above ++ [line])).getLast? = some value) :
      Absorbed above line below (some (field, value))
  | completed {value : String} (unlisted : values "provides-extra" (above ++ line :: below) = [])
      (named : extrasOf (values "requires-dist" (above ++ line :: below)) = [value]) :
      Absorbed above line below (some ("provides-extra", value))

section
variable {above below : List (List Char)} {line joined : List Char}

theorem values_insert (field : String) (above : List (List Char)) (line : List Char)
    (below : List (List Char)) :
    values field (above ++ line :: below)
      = values field above ++ (values field [line] ++ values field below) := by
  rw [← values_append, ← values_append]
  rfl

theorem values_of_header? {field value : String} (h : header? line = some (field, value))
    (name : String) : values name [line] = if field = name then [value] else [] := by
  by_cases same : field = name <;> simp [values, h, same]

theorem values_of_not_header {line : List Char} (h : header? line = none) (name : String) :
    values name [line] = [] := by
  simp [values, h]

/-- A line gives a value of a field for which another line gives another one or none; of all other
fields the two give the same. -/
structure Rewords (joined line : List Char) (field longer : String) : Prop where
  own : values field [joined] = [longer]
  differs : [longer] ≠ values field [line]
  other : ∀ name, field ≠ name → values name [joined] = values name [line]

theorem rewords_of_goes_on {c : Char} (hc : isBlank c = false) {rest : List Char}
    {field longer : String} (found : header? (line ++ ' ' :: c :: rest) = some (field, longer)) :
    Rewords (line ++ ' ' :: c :: rest) line field longer := by
  have own : values field [line ++ ' ' :: c :: rest] = [longer] := by
    rw [values_of_header? found, if_pos rfl]
  rcases header?_goes_on hc line rest with quiet | ⟨field, value, longer, ne, was, loud⟩
  · refine ⟨own, ?_, fun name other => ?_⟩
    · rw [values_of_not_header quiet]
      exact List.cons_ne_nil _ _
    · rw [values_of_header? found, if_neg other, values_of_not_header quiet]
  · rw [found] at loud
    cases loud
    refine ⟨own, ?_, fun name other => ?_⟩
    · rw [values_of_header? was, if_pos rfl]
      intro same
      exact ne (List.singleton_inj.1 same).symm
    · rw [values_of_header? found, values_of_header? was, if_neg other, if_neg other]

namespace Rewords

variable {field longer : String} (h : Rewords joined line field longer)
include h

theorem values_eq {name : String} (other : field ≠ name) :
    values name (above ++ joined :: below) = values name (above ++ line :: below) := by
  rw [values_insert, values_insert, h.other name other]

theorem values_ne :
    values field (above ++ joined :: below) ≠ values field (above ++ line :: below) := by
  rw [values_insert, values_insert, h.own]
  intro same
  exact h.differs (List.append_cancel_right (List.append_cancel_left same))

theorem getLast?_values_eq_iff :
    (values field (above ++ joined :: below)).getLast?
        = (values field (above ++ line :: below)).getLast?
      ↔ values field below ≠ [] ∨ (values field (above ++ [line])).getLast? = some longer := by
  rw [values_insert, values_insert, values_append, h.own]
  by_cases later : values field below = []
  · rw [later, List.append_nil, List.append_nil, List.getLast?_concat]
    simp [eq_comm]
  · refine iff_of_true ?_ (.inl later)
    rw [List.getLast?_append_of_ne_nil _ (by simp), List.getLast?_append_of_ne_nil _ later,
      List.getLast?_append_of_ne_nil _ (by simp [later]), List.getLast?_append_of_ne_nil _ later]

theorem provided_eq_iff (extra : field = "provides-extra") :
    provided (above ++ joined :: below) = provided (above ++ line :: below)
      ↔ values field (above ++ line :: below) = []
        ∧ extrasOf (values "requires-dist" (above ++ line :: below)) = [longer] := by
  have listed : values field (above ++ joined :: below) ≠ [] := by
    rw [values_insert, h.own]
    simp
  rw [provided, provided, ← extra, if_neg listed]
  by_cases unlisted : values field (above ++ line :: below) = []
  · have alone : values field (above ++ joined :: below) = [longer] := by
      rw [values_insert, List.append_eq_nil_iff, List.append_eq_nil_iff] at unlisted
      rw [values_insert, h.own, unlisted.1, unlisted.2.2]
      rfl
    rw [if_pos unlisted, alone, eq_comm]
    exact (and_iff_right unlisted).symm
  · rw [if_neg unlisted]
    exact iff_of_false h.values_ne fun both => unlisted both.1

/-- Where a line comes to say something else, the metadata stay as they are just where that does
not count. -/
theorem described_eq_iff_absorbed :
    described (above ++ joined :: below) = described (above ++ line :: below)
      ↔ Absorbed above line below (some (field, longer)) := by
  rw [described_eq_iff]
  -- what the two lines leave alone, by the kind of the field
  have lists (other_dist : field ≠ "requires-dist") (other_extra : field ≠ "provides-extra") :
      values "requires-dist" (above ++ joined :: below)
          = values "requires-dist" (above ++ line :: below)
        ∧ provided (above ++ joined :: below) = provided (above ++ line :: below) := by
    rw [provided, provided, h.values_eq other_dist, h.values_eq other_extra]
    exact ⟨rfl, rfl⟩
  have texts (other : field ∉ textFields) : ∀ name ∈ textFields,
      (values name (above ++ joined :: below)).getLast?
        = (values name (above ++ line :: below)).getLast? := by
    intro name text
    rw [h.values_eq fun same => other (same ▸ text)]
  have kept (text : field ∈ textFields) (absorbed : values field below ≠ []
        ∨ (values field (above ++ [line])).getLast? = some longer) : ∀ name ∈ textFields,
      (values name (above ++ joined :: below)).getLast?
        = (values name (above ++ line :: below)).getLast? := by
    intro name _
    by_cases same : field = name
    · exact same ▸ h.getLast?_values_eq_iff.2 absorbed
    · rw [h.values_eq same]
  have no_list (text : field ∈ textFields) :
      field ≠ "requires-dist" ∧ field ≠ "provides-extra" := by
    constructor <;> (rintro rfl; exact absurd text (by decide))
  constructor
  · rintro ⟨last, dist, extras⟩
    by_cases text : field ∈ textFields
    · exact (h.getLast?_values_eq_iff.1 (last field text)).elim (.again text) (.known text)
    by_cases list : field ∈ listFields
    · rcases List.mem_pair.1 list with rfl | rfl
      · exact absurd dist h.values_ne
      · obtain ⟨unlisted, named⟩ := (h.provided_eq_iff rfl).1 extras
        exact .completed unlisted named
    · exact .unread text list
  · intro absorbed
    cases absorbed with
    | unread text list =>
      rw [listFields, List.mem_pair, not_or] at list
      exact ⟨texts text, lists list.1 list.2⟩
    | again text later =>
      exact ⟨kept text (.inl later), lists (no_list text).1 (no_list text).2⟩
    | known text before =>
      exact ⟨kept text (.inr before), lists (no_list text).1 (no_list text).2⟩
    | completed unlisted named =>
      exact ⟨texts (by decide), h.values_eq (by decide), (h.provided_eq_iff rfl).2 ⟨unlisted, named⟩⟩

end Rewords

theorem described_congr {ls ks : List (List Char)} (h : ∀ field, values field ls = values field ks) :
    described ls = described ks := by
  simp only [described, given, provided, h]

/-- A line of which nothing is read may be left out. -/
theorem described_of_not_header {line : List Char} (h : header? line = none)
    (above below : List (List Char)) :
    described (above ++ line :: below) = described (above ++ below) := by
  refine described_congr fun field => ?_
  rw [values_insert, values_of_not_header h, List.nil_append, values_append]

/-- Where a line goes on behind a blank, the metadata stay as they are just where the whole line
does not count. -/
theorem described_goes_on_iff {c : Char} (hc : isBlank c = false) (above below : List (List Char))
    (line rest : List Char) :
    described (above ++ (line ++ ' ' :: c :: rest) :: below) = described (above ++ line :: below)
      ↔ Absorbed above line below (header? (line ++ ' ' :: c :: rest)) := by
  cases found : header? (line ++ ' ' :: c :: rest) with
  | none =>
    have quiet : header? line = none := by
      refine (header?_goes_on hc line rest).resolve_right ?_
      rintro ⟨field, value, longer, -, -, loud⟩
      rw [found] at loud
      cases loud
    refine iff_of_true ?_ .nothing
    rw [described_of_not_header found, described_of_not_header quiet]
  | some header => exact (rewords_of_goes_on hc found).described_eq_iff_absorbed

end

/-! ## Folded texts -/

/-- A text in whose header a line goes on in an indented line: what stands before the line break,
the line break, the indentation, and what follows from the first visible character on. -/
structure Folding where
  front : String
  lineBreak : String
  indent : String
  rest : String
  inHeader : ∀ line ∈ lines front.toList, ¬Blank line
  isBreak : lineBreak = "\r\n" ∨ lineBreak = "\n" ∧ front.toList.getLast? ≠ some '\r'
  indented : indent ≠ ""
  blank : Blank indent.toList
  oneLine : '\n' ∉ indent.toList
  visible : ∃ c cs, rest.toList = c :: cs ∧ isBlank c = false

namespace Folding

/-- The text on two lines. -/
def folded (f : Folding) : String := f.front ++ f.lineBreak ++ f.indent ++ f.rest

/-- The text on one line, with a single space. -/
def unfolded (f : Folding) : String := f.front ++ " " ++ f.rest

theorem head?_rest_ne (f : Folding) : f.rest.toList.head? ≠ some '\n' := by
  obtain ⟨c, cs, shape, hc⟩ := f.visible
  rw [shape]
  rintro ⟨⟩
  exact absurd hc (by decide)

section
variable (f : Folding) {above after : List (List Char)} {line cont : List Char}

theorem lines_folded (front : lines f.front.toList = above ++ [line])
    (rest : lines f.rest.toList = cont :: after) :
    lines f.folded.toList = above ++ line :: (f.indent.toList ++ cont) :: after := by
  have indented : lines (f.indent.toList ++ f.rest.toList)
      = [] ++ (f.indent.toList ++ cont) :: after :=
    lines_append (lines_of_not_mem f.oneLine) rest fun _ => f.head?_rest_ne
  have whole : f.folded.toList
      = f.front.toList ++ (f.lineBreak.toList ++ (f.indent.toList ++ f.rest.toList)) := by
    simp only [folded, String.toList_append, List.append_assoc]
  rw [whole]
  rcases f.isBreak with two | ⟨one, no_return⟩
  · have broken : lines ("\r\n".toList ++ (f.indent.toList ++ f.rest.toList))
        = [] :: (f.indent.toList ++ cont) :: after := congrArg ([] :: ·) indented
    rw [two, lines_append front broken fun _ => by simp, List.append_nil]
  · have broken : lines ("\n".toList ++ (f.indent.toList ++ f.rest.toList))
        = [] :: (f.indent.toList ++ cont) :: after := congrArg ([] :: ·) indented
    rw [one, lines_append front broken fun last => absurd last no_return, List.append_nil]

theorem lines_unfolded (front : lines f.front.toList = above ++ [line])
    (rest : lines f.rest.toList = cont :: after) :
    lines f.unfolded.toList = above ++ (line ++ ' ' :: cont) :: after := by
  have spaced : lines (' ' :: f.rest.toList) = (' ' :: cont) :: after := by
    rw [lines_cons (by decide) (by simp), rest]
    rfl
  have whole : f.unfolded.toList = f.front.toList ++ ' ' :: f.rest.toList := by
    simp [unfolded]
  rw [whole, lines_append front spaced fun _ => by simp]

end

end Folding

/-- A line is one of the header if it is not blank. -/
theorem takeWhile_header {above : List (List Char)} (h : ∀ line ∈ above, ¬Blank line)
    (below : List (List Char)) :
    (above ++ below).takeWhile (fun line => !(Text.trim line).isEmpty)
      = above ++ below.takeWhile fun line => !(Text.trim line).isEmpty := by
  refine List.takeWhile_append_of_pos fun line mem => ?_
  obtain ⟨front, c, rest, rfl, -, hc⟩ := (blank_or_exists line).resolve_left (h line mem)
  have there : c ∈ Text.trim (front ++ c :: rest) := mem_trim (by simp) hc
  simp [List.ne_nil_of_mem there]

/-- The header lines of the two texts, of which the first has one more. -/
theorem Folding.exists_headerLines (f : Folding) :
    ∃ above line c cont below, isBlank c = false
      ∧ lines f.front.toList = above ++ [line]
      ∧ headerLines f.folded = above ++ line :: (f.indent.toList ++ c :: cont) :: below
      ∧ headerLines f.unfolded = above ++ (line ++ ' ' :: c :: cont) :: below := by
  obtain ⟨above, line, front⟩ :=
    (List.eq_nil_or_concat' (lines f.front.toList)).resolve_left (lines_ne_nil _)
  obtain ⟨c, cs, start, hc⟩ := f.visible
  obtain ⟨cont, after, rest⟩ := exists_lines_cons hc cs
  rw [← start] at rest
  have front_visible : ∀ l ∈ above ++ [line], ¬Blank l := front ▸ f.inHeader
  have goes_on_visible (l : List Char) : ¬Blank (l ++ c :: cont) := by
    intro blank
    rw [blank c (by simp)] at hc
    cases hc
  have two_visible : ∀ l ∈ above ++ [line] ++ [f.indent.toList ++ c :: cont], ¬Blank l :=
    List.forall_mem_append.2 ⟨front_visible, by simpa using goes_on_visible _⟩
  have one_visible : ∀ l ∈ above ++ [line ++ ' ' :: c :: cont], ¬Blank l :=
    List.forall_mem_append.2 ⟨fun l mem => front_visible l (List.mem_append_left _ mem),
      by simpa using goes_on_visible (line ++ [' '])⟩
  refine ⟨above, line, c, cont, after.takeWhile fun l => !(Text.trim l).isEmpty, hc, front, ?_, ?_⟩
  · simpa [headerLines, f.lines_folded front rest] using takeWhile_header two_visible after
  · simpa [headerLines, f.lines_unfolded front rest] using takeWhile_header one_visible after

/-- **A line that goes on in an indented line is read as if it ended there, so that writing the two
on one line leaves the metadata as they are just where the whole line does not count.** -/
theorem unfolding_kept_iff_absorbed (f : Folding) :
    ∃ above line cont below, lines f.front.toList = above ++ [line]
      ∧ headerLines f.folded = above ++ line :: (f.indent.toList ++ cont) :: below
      ∧ headerLines f.unfolded = above ++ (line ++ ' ' :: cont) :: below
      ∧ parseText f.folded = described (above ++ line :: below)
      ∧ (parseText f.unfolded = parseText f.folded
        ↔ Absorbed above line below (header? (line ++ ' ' :: cont))) := by
  obtain ⟨above, line, c, cont, below, hc, front, folded, unfolded⟩ := f.exists_headerLines
  have indented : header? (f.indent.toList ++ c :: cont) = none := by
    cases chars : f.indent.toList with
    | nil => exact absurd (String.toList_eq_nil_iff.1 chars) f.indented
    | cons d ds => exact header?_of_indented (f.blank d (by simp [chars])) _
  have read : parseText f.folded = described (above ++ line :: below) := by
    have left_out := described_of_not_header indented (above ++ [line]) below
    rw [parseText_eq, folded]
    simpa using left_out
  refine ⟨above, line, c :: cont, below, front, folded, unfolded, read, ?_⟩
  rw [read, parseText_eq, unfolded]
  exact described_goes_on_iff hc above below line cont

/-- A description on two lines, between a name and a version. -/
def foldedDescription : Folding where
  front := "Name: foo\nDescription: reads"
  lineBreak := "\r\n"
  indent := "\t"
  rest := "and writes\nVersion: 1.0"
  inHeader := by decide
  isBreak := .inl rfl
  indented := by decide
  blank := by decide
  oneLine := by decide
  visible := ⟨'a', _, rfl, by decide⟩

theorem unfolding_kept_iff_absorbed_of_description :
    foldedDescription.unfolded = "Name: foo\nDescription: reads and writes\nVersion: 1.0"
      ∧ parseText foldedDescription.unfolded = parseText foldedDescription.folded := by
  have unfolded : foldedDescription.unfolded
      = "Name: foo\nDescription: reads and writes\nVersion: 1.0" := by decide
  refine ⟨unfolded, ?_⟩
  obtain ⟨above, line, cont, below, front, -, joined, -, kept⟩ :=
    unfolding_kept_iff_absorbed foldedDescription
  have start : lines foldedDescription.front.toList
      = ["Name: foo".toList] ++ ["Description: reads".toList] := by decide
  obtain ⟨rfl, one⟩ := List.append_inj' (front.symm.trans start) rfl
  obtain rfl := List.singleton_inj.1 one
  have header : headerLines foldedDescription.unfolded
      = ["Name: foo".toList]
        ++ "Description: reads and writes".toList :: ["Version: 1.0".toList] := by
    rw [unfolded]
    decide
  obtain ⟨whole, rfl⟩ := List.cons.inj (List.append_cancel_left (joined.symm.trans header))
  apply kept.2
  have unread : header? "Description: reads and writes".toList
      = some ("description", "reads and writes") := by decide
  rw [whole, unread]
  exact .unread (by decide) (by decide)

/-- A requirement whose marker stands on an indented line of its own. -/
def foldedMarker : Folding where
  front := "Requires-Dist: foo;"
  lineBreak := "\n"
  indent := " "
  rest := "extra == \"x\""
  inHeader := by decide
  isBreak := .inr ⟨rfl, by decide⟩
  indented := by decide
  blank := by decide
  oneLine := by decide
  visible := ⟨'e', _, rfl, by decide⟩

/-- On one line the requirement has its marker, which names an extra. -/
theorem unfolding_changes_foldedMarker :
    ¬∀ f : Folding, parseText f.unfolded = parseText f.folded := by
  intro kept
  exact absurd (kept foldedMarker) (by decide +kernel)

end Metadata

end DepClause
