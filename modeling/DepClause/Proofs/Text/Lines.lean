import DepClause.Text.Blank
import Mathlib.Data.List.Basic

/-!
# Lines

A text is cut at its line breaks: a line feed, alone or behind one carriage return.
-/

namespace DepClause.Text

theorem lines_ne_nil (s : List Char) : lines s ≠ [] := by
  fun_induction lines s with
  | case1 | case2 | case3 => exact List.cons_ne_nil _ _
  | case4 c cs _ _ ih => simpa using ih

theorem lines_cons {c : Char} {s : List Char} (no_feed : c ≠ '\n')
    (no_return : c = '\r' → s.head? ≠ some '\n') :
    lines (c :: s) = (lines s).modifyHead (c :: ·) := by
  rw [lines]
  · exact no_feed
  · rintro cs rfl rfl
    exact no_return rfl rfl

/-- Behind a text that does not end inside a line break, the first line of a rest goes on in the
last line of the text. -/
theorem lines_append {front rest line cont : List Char} {init after : List (List Char)}
    (h : lines front = init ++ [line]) (k : lines rest = cont :: after)
    (whole : front.getLast? = some '\r' → rest.head? ≠ some '\n') :
    lines (front ++ rest) = init ++ (line ++ cont) :: after := by
  have behind (c : Char) (cs : List Char) (closed : (c :: cs).getLast? = some '\r' →
      rest.head? ≠ some '\n') : cs.getLast? = some '\r' → rest.head? ≠ some '\n' := by
    intro last
    exact closed (by rw [List.getLast?_cons, last]; rfl)
  fun_induction lines front generalizing init line with
  | case1 =>
    obtain ⟨rfl, rfl⟩ : init = [] ∧ line = [] := by
      cases init <;> simp_all
    simpa using k
  | case2 cs ih =>
    obtain ⟨init', rfl, last⟩ : ∃ init', init = [] :: init' ∧ lines cs = init' ++ [line] := by
      cases init <;> simp_all [lines_ne_nil]
    rw [List.cons_append, lines, ih last (behind _ _ whole), List.cons_append]
  | case3 cs ih =>
    obtain ⟨init', rfl, last⟩ : ∃ init', init = [] :: init' ∧ lines cs = init' ++ [line] := by
      cases init <;> simp_all [lines_ne_nil]
    rw [List.cons_append, List.cons_append, lines, ih last (behind _ _ (behind _ _ whole)),
      List.cons_append]
  | case4 c cs no_feed no_return ih =>
    have open_end : c = '\r' → (cs ++ rest).head? ≠ some '\n' := by
      rintro rfl feed
      cases cs with
      | nil => exact whole rfl feed
      | cons d cs =>
        cases feed
        exact no_return cs rfl rfl
    obtain ⟨init', line', last⟩ :=
      (List.eq_nil_or_concat' (lines cs)).resolve_left (lines_ne_nil cs)
    rw [last] at h
    rw [List.cons_append, lines_cons no_feed open_end, ih last (behind _ _ whole)]
    cases init' with
    | nil =>
      have whole_lines : [] ++ [c :: line'] = init ++ [line] := h
      obtain ⟨rfl, one⟩ := List.append_inj' whole_lines rfl
      cases one
      rfl
    | cons first init' =>
      have whole_lines : (c :: first) :: init' ++ [line'] = init ++ [line] := h
      obtain ⟨rfl, one⟩ := List.append_inj' whole_lines rfl
      cases one
      rfl

theorem lines_of_not_mem {s : List Char} (h : '\n' ∉ s) : lines s = [s] := by
  induction s with
  | nil => rfl
  | cons c cs ih =>
    rw [List.mem_cons, not_or] at h
    have no_feed : c = '\r' → cs.head? ≠ some '\n' :=
      fun _ feed => h.2 (List.mem_of_mem_head? feed)
    rw [lines_cons (Ne.symm h.1) no_feed, ih h.2]
    rfl

/-- A text that starts with a visible character does so with its first line. -/
theorem exists_lines_cons {c : Char} (hc : isBlank c = false) (cs : List Char) :
    ∃ cont after, lines (c :: cs) = (c :: cont) :: after := by
  have no_feed : c ≠ '\n' := by
    rintro rfl
    exact absurd hc (by decide)
  have no_return : c = '\r' → cs.head? ≠ some '\n' := by
    rintro rfl
    exact absurd hc (by decide)
  obtain ⟨cont, after, behind⟩ := List.exists_cons_of_ne_nil (lines_ne_nil cs)
  exact ⟨cont, after, by rw [lines_cons no_feed no_return, behind]; rfl⟩

/-- A text and its lines. A line ends at a line feed, alone or behind one carriage return, or with
the text. -/
inductive InLines : List Char → List (List Char) → Prop
  | last {line : List Char} (whole : '\n' ∉ line) : InLines line [line]
  | feed {line rest : List Char} {ls : List (List Char)} (whole : '\n' ∉ line)
      (alone : line.getLast? ≠ some '\r') (more : InLines rest ls) :
      InLines (line ++ '\n' :: rest) (line :: ls)
  | returnFeed {line rest : List Char} {ls : List (List Char)} (whole : '\n' ∉ line)
      (more : InLines rest ls) : InLines (line ++ '\r' :: '\n' :: rest) (line :: ls)

/-- A character in front of a text belongs to its first line. -/
theorem InLines.modifyHead {c : Char} {s : List Char} {ls : List (List Char)} (h : InLines s ls)
    (no_feed : c ≠ '\n') (no_return : c = '\r' → s.head? ≠ some '\n') :
    InLines (c :: s) (ls.modifyHead (c :: ·)) := by
  have whole {line : List Char} (h : '\n' ∉ line) : '\n' ∉ c :: line := by
    rw [List.mem_cons, not_or]
    exact ⟨no_feed.symm, h⟩
  cases h with
  | last free => exact .last (whole free)
  | @feed line rest ls free alone more =>
    refine @InLines.feed (c :: line) rest _ (whole free) ?_ more
    cases line with
    | nil =>
      rintro ⟨⟩
      exact no_return rfl rfl
    | cons d line => rwa [List.getLast?_cons_cons]
  | returnFeed free more => exact .returnFeed (whole free) more

theorem inLines_lines (s : List Char) : InLines s (lines s) := by
  fun_induction lines s with
  | case1 => exact .last List.not_mem_nil
  | case2 cs ih => exact .feed List.not_mem_nil nofun ih
  | case3 cs ih => exact .returnFeed List.not_mem_nil ih
  | case4 c cs no_feed no_return ih =>
    refine ih.modifyHead no_feed ?_
    rintro rfl feed
    obtain ⟨rest, rfl⟩ := List.head?_eq_some_iff.1 feed
    exact no_return rest rfl rfl

/-- The cut finds the lines, and there are no others. -/
theorem lines_eq_iff {s : List Char} {ls : List (List Char)} : lines s = ls ↔ InLines s ls := by
  constructor
  · rintro rfl
    exact inLines_lines s
  · intro h
    induction h with
    | last whole => exact lines_of_not_mem whole
    | @feed line rest ls whole alone more ih =>
      have front : lines line = [] ++ [line] := lines_of_not_mem whole
      have behind : lines ('\n' :: rest) = [] :: ls := by rw [lines, ih]
      rw [lines_append front behind fun last => absurd last alone, List.append_nil]
      rfl
    | @returnFeed line rest ls whole more ih =>
      have front : lines line = [] ++ [line] := lines_of_not_mem whole
      have behind : lines ('\r' :: '\n' :: rest) = [] :: ls := by rw [lines, ih]
      rw [lines_append front behind fun _ => by simp, List.append_nil]
      rfl

end DepClause.Text
