import DepClause.Command.Conversion
import DepClause.Proofs.Text.Lines
import DepClause.Proofs.Text.Trim

/-!
# The lines of a requirements file

What a line says stands in front of its first comment. A line that says nothing is left out, one
that says an option for another program is left out with a warning, and any other one is a
requirement.
-/

namespace DepClause.Command

/-! ## Comments -/

/-- A comment behind a front of a line: a number sign at the start of the line or behind a blank,
with nothing behind it that ends a line. -/
def IsComment (front s : List Char) : Prop :=
  ∃ rest, (∀ c ∈ rest, Text.isLineBreak c = false) ∧
    (front = [] ∧ s = '#' :: rest ∨ ∃ b, Text.isBlank b = true ∧ s = b :: '#' :: rest)

/-- What stands in front of the first comment of a line; the whole line if it has none. -/
structure IsFront (line front : List Char) : Prop where
  cut : ∃ comment, line = front ++ comment ∧ (comment = [] ∨ IsComment front comment)
  first : ∀ earlier behind, line = earlier ++ behind → earlier.length < front.length →
    ¬IsComment earlier behind

theorem IsComment.ne_nil {front s : List Char} (h : IsComment front s) : s ≠ [] := by
  obtain ⟨rest, -, ⟨-, rfl⟩ | ⟨b, -, rfl⟩⟩ := h
  · exact List.cons_ne_nil _ _
  · exact List.cons_ne_nil _ _

/-- A line has one front. -/
theorem IsFront.eq {line front other : List Char} (h : IsFront line front)
    (k : IsFront line other) : front = other := by
  have le {f g : List Char} (h : IsFront line f) (k : IsFront line g) : g.length ≤ f.length := by
    obtain ⟨comment, cut, none | found⟩ := h.cut
    · obtain ⟨behind, whole, -⟩ := k.cut
      rw [cut, none, List.append_nil] at whole
      rw [whole, List.length_append]
      omega
    · by_contra longer
      exact k.first f comment cut (by omega) found
  obtain ⟨comment, cut, -⟩ := h.cut
  obtain ⟨behind, whole, -⟩ := k.cut
  have same : front.length = other.length := Nat.le_antisymm (le k h) (le h k)
  exact (List.append_inj (cut.symm.trans whole) same).1

theorem withoutComment_of_comment {front s : List Char} (h : IsComment front s) :
    withoutComment front.isEmpty s = [] := by
  obtain ⟨rest, one_line, ⟨rfl, rfl⟩ | ⟨b, blank, rfl⟩⟩ := h
  · have reaches : rest.all (!Text.isLineBreak ·) = true := by simpa using one_line
    cases rest <;> simp_all [withoutComment]
  · have reaches : rest.all (!Text.isLineBreak ·) = true := by simpa using one_line
    simp [withoutComment, blank, reaches]

theorem withoutComment_of_not {front s : List Char} {c : Char} (h : ¬IsComment front (c :: s)) :
    withoutComment front.isEmpty (c :: s) = c :: withoutComment false s := by
  have at_start : (front.isEmpty && c == '#' && s.all (!Text.isLineBreak ·)) = false := by
    by_contra found
    simp only [Bool.not_eq_false, Bool.and_eq_true, List.isEmpty_iff, beq_iff_eq, List.all_eq_true,
      Bool.not_eq_true'] at found
    obtain ⟨⟨rfl, rfl⟩, one_line⟩ := found
    exact h ⟨s, one_line, .inl ⟨rfl, rfl⟩⟩
  cases s with
  | nil =>
    rw [List.all_nil, Bool.and_true] at at_start
    simp only [withoutComment, at_start, Bool.false_eq_true, if_false]
  | cons d rest =>
    have behind_blank : (Text.isBlank c && d == '#' && rest.all (!Text.isLineBreak ·)) = false := by
      by_contra found
      simp only [Bool.not_eq_false, Bool.and_eq_true, beq_iff_eq, List.all_eq_true,
        Bool.not_eq_true'] at found
      obtain ⟨⟨blank, rfl⟩, one_line⟩ := found
      exact h ⟨rest, one_line, .inr ⟨c, blank, rfl⟩⟩
    simp only [withoutComment, at_start, behind_blank, Bool.false_eq_true, if_false]

/-- Of a line without a comment up to `done`, the front goes on as far as the rest has none. -/
theorem isFront_append {done s : List Char}
    (none : ∀ earlier behind, done ++ s = earlier ++ behind → earlier.length < done.length →
      ¬IsComment earlier behind) :
    IsFront (done ++ s) (done ++ withoutComment done.isEmpty s) := by
  induction s generalizing done with
  | nil =>
    rw [List.append_nil] at none
    rw [withoutComment, List.append_nil]
    exact ⟨⟨[], (List.append_nil done).symm, .inl rfl⟩, none⟩
  | cons c s ih =>
    by_cases found : IsComment done (c :: s)
    · rw [withoutComment_of_comment found, List.append_nil]
      exact ⟨⟨c :: s, rfl, .inr found⟩, none⟩
    · rw [withoutComment_of_not found, List.append_cons,
        List.append_cons done c (withoutComment false s)]
      have goes_on : (done ++ [c]).isEmpty = false := by simp
      rw [← goes_on]
      apply ih
      intro earlier behind cut shorter
      rw [List.append_assoc] at cut
      rcases Nat.lt_or_ge earlier.length done.length with before | here
      · exact none earlier behind cut before
      · rw [List.length_append, List.length_singleton] at shorter
        obtain ⟨rfl, rfl⟩ := List.append_inj cut (by omega)
        exact found

theorem isFront_iff {line front : List Char} :
    IsFront line front ↔ withoutComment true line = front := by
  have whole : IsFront line (withoutComment true line) :=
    @isFront_append [] line fun _ _ _ shorter => absurd shorter (Nat.not_lt_zero _)
  constructor
  · exact whole.eq
  · rintro rfl
    exact whole

/-! ## Requirements -/

/-- The requirements that lines list, and the options that stand among them. -/
inductive Lists : List (List Char) → List String → List String → Prop
  | nil : Lists [] [] []
  | empty {line front : List Char} {lines : List (List Char)} {requirements options : List String}
      (cut : IsFront line front) (blank : Text.trim front = [])
      (more : Lists lines requirements options) : Lists (line :: lines) requirements options
  | option {line front rest : List Char} {lines : List (List Char)}
      {requirements options : List String} (cut : IsFront line front)
      (text : Text.trim front = '-' :: rest) (more : Lists lines requirements options) :
      Lists (line :: lines) requirements (String.ofList ('-' :: rest) :: options)
  | requirement {line front rest : List Char} {c : Char} {lines : List (List Char)}
      {requirements options : List String} (cut : IsFront line front)
      (text : Text.trim front = c :: rest) (plain : c ≠ '-')
      (more : Lists lines requirements options) :
      Lists (line :: lines) (String.ofList (c :: rest) :: requirements) options

/-- The warning about an option that is left out. -/
def skipped (option : String) : Log.Entry :=
  ⟨.warn, "pip 옵션 줄은 건너뜁니다", [("line", .text option)]⟩

theorem requirementsOf_eq {lines : List (List Char)} {requirements options : List String}
    (h : Lists lines requirements options) :
    requirementsOf lines = ⟨options.map skipped, .ok requirements⟩ := by
  induction h with
  | nil => rfl
  | empty cut blank more ih => rw [requirementsOf, isFront_iff.1 cut, blank]; exact ih
  | option cut text more ih =>
    rw [requirementsOf, isFront_iff.1 cut, text, ih]
    rfl
  | requirement cut text plain more ih =>
    rw [requirementsOf, isFront_iff.1 cut, text]
    split
    · rename_i none
      cases none
    · rename_i option
      exact absurd (List.cons.inj option).1 plain
    · rw [ih]
      change (⟨_ ++ [], _⟩ : Logged Failure (List String)) = _
      rw [List.append_nil]
      rfl

theorem exists_lists (lines : List (List Char)) :
    ∃ requirements options, Lists lines requirements options := by
  induction lines with
  | nil => exact ⟨[], [], .nil⟩
  | cons line lines ih =>
    obtain ⟨requirements, options, more⟩ := ih
    have cut : IsFront line (withoutComment true line) := isFront_iff.2 rfl
    cases text : Text.trim (withoutComment true line) with
    | nil => exact ⟨_, _, .empty cut text more⟩
    | cons c rest =>
      by_cases option : c = '-'
      · exact ⟨_, _, .option cut (option ▸ text) more⟩
      · exact ⟨_, _, .requirement cut text option more⟩

/-- A file with the requirements that it lists and the options among them. -/
def FileLists (text : String) (requirements options : List String) : Prop :=
  ∃ lines, Text.InLines text.toList lines ∧ Lists lines requirements options

/-- Reading the requirements of a file never fails: they are those that its lines list, with a
warning for each option. -/
theorem requirementsOfText_eq (text : String) : ∃ requirements options,
    FileLists text requirements options
      ∧ requirementsOfText text = ⟨options.map skipped, .ok requirements⟩ := by
  obtain ⟨requirements, options, listed⟩ := exists_lists (Text.lines text.toList)
  exact ⟨requirements, options, ⟨_, Text.inLines_lines _, listed⟩, requirementsOf_eq listed⟩

theorem requirementsOfText_eq_ok_iff {text : String} {requirements : List String} :
    (requirementsOfText text).result = .ok requirements ↔
      ∃ options, FileLists text requirements options := by
  constructor
  · intro h
    obtain ⟨listed, options, file, whole⟩ := requirementsOfText_eq text
    rw [whole] at h
    cases h
    exact ⟨options, file⟩
  · rintro ⟨options, lines, cut, listed⟩
    obtain rfl := Text.lines_eq_iff.2 cut
    rw [requirementsOfText, requirementsOf_eq listed]

example : (requirementsOfText "a # b\r\n\n-r c\n#d\ne#f").result.toOption
    = some ["a", "e#f"] := by decide +kernel

end DepClause.Command
