import DepClause.Glob
import Mathlib.Data.List.Forall2

/-!
# What globs match

The regular expression that a pattern becomes is always read, and read as one step for each unit of
the pattern between the two anchors: what is escaped stands for itself, and nothing else has a
meaning of its own. So a text matches just if it can be cut into what the units of the pattern
cover.
-/

namespace DepClause

namespace Regex

/-! ## Reading -/

theorem sign?_of_not_reserved {u : Nat} (h : u ∉ reserved) : sign? u = some (.atom (.unit u)) := by
  have plain {c : Char} (hc : c.toNat ∈ reserved) : (u == c.toNat) = false :=
    beq_eq_false_iff_ne.2 fun same => h (same ▸ hc)
  rw [sign?, plain (c := '^') (by decide), plain (c := '$') (by decide),
    plain (c := '*') (by decide), plain (c := '.') (by decide)]
  simp [h]

theorem signs_cons {u : Nat} {s : Sign} (free : u ≠ escape) (h : sign? u = some s)
    (us : List Nat) : signs false (u :: us) = (signs false us).map (s :: ·) := by
  simp [signs, free, h]

theorem signs_any (us : List Nat) :
    signs false ('.'.toNat :: us) = (signs false us).map (.atom .any :: ·) :=
  signs_cons (by decide) (by decide) us

theorem signs_star (us : List Nat) :
    signs false ('*'.toNat :: us) = (signs false us).map (.star :: ·) :=
  signs_cons (by decide) (by decide) us

theorem signs_of_not_reserved {u : Nat} (h : u ∉ reserved) (us : List Nat) :
    signs false (u :: us) = (signs false us).map (.atom (.unit u) :: ·) :=
  signs_cons (fun same => h (by rw [same]; decide)) (sign?_of_not_reserved h) us

theorem signs_escape {u : Nat} (h : u ∈ reserved) (us : List Nat) :
    signs false (escape :: u :: us) = (signs false us).map (.atom (.unit u) :: ·) := by
  simp [signs, h]

/-- Without a star behind it an atom stands for one unit. -/
theorem steps_atom (a : Atom) {rest : List Sign} (h : rest.head? ≠ some .star) :
    steps (.atom a :: rest) = (steps rest).map (.one a :: ·) := by
  cases rest with
  | nil => rfl
  | cons s rest =>
    cases s with
    | star => exact absurd rfl h
    | start | finish | atom => rfl

/-! ## Testing -/

theorem past_iff {a : Atom} {next : Bool → List Nat → Bool} {atStart : Bool} {us : List Nat} :
    past a next atStart us = true ↔
      ∃ run rest, us = run ++ rest ∧ (∀ u ∈ run, a.takes u = true) ∧
        next (atStart && run.isEmpty) rest = true := by
  induction us generalizing atStart with
  | nil =>
    constructor
    · intro h
      exact ⟨[], [], rfl, List.forall_mem_nil _, by simpa [past] using h⟩
    · rintro ⟨run, rest, whole, -, h⟩
      obtain ⟨rfl, rfl⟩ := List.append_eq_nil_iff.1 whole.symm
      simpa [past] using h
  | cons u us ih =>
    rw [past, Bool.or_eq_true, Bool.and_eq_true, ih]
    constructor
    · rintro (h | ⟨taken, run, rest, rfl, all, h⟩)
      · exact ⟨[], u :: us, rfl, List.forall_mem_nil _, by simpa using h⟩
      · exact ⟨u :: run, rest, rfl, List.forall_mem_cons.2 ⟨taken, all⟩, by simpa using h⟩
    · rintro ⟨run, rest, whole, all, h⟩
      cases run with
      | nil =>
        left
        rw [whole]
        simpa using h
      | cons v run =>
        obtain ⟨rfl, rfl⟩ := List.cons.inj whole
        obtain ⟨taken, all⟩ := List.forall_mem_cons.1 all
        exact .inr ⟨taken, run, rest, rfl, all, by simpa using h⟩

theorem occurs_start_later (regex : List Step) (us : List Nat) :
    occurs (.start :: regex) false us = false := by
  induction us with
  | nil => rfl
  | cons u us ih => rw [occurs, ih, passes, Bool.false_and, Bool.false_or]

/-- What starts with the first anchor is found at the start or not at all. -/
theorem test_start (regex : List Step) (us : List Nat) :
    test (.start :: regex) us = passes regex true us := by
  cases us with
  | nil => rw [test, occurs, passes, Bool.true_and]
  | cons u us => rw [test, occurs, occurs_start_later, passes, Bool.true_and, Bool.or_false]

end Regex

namespace Glob

open Regex (isLineBreak)

/-! ## Matching texts -/

/-- Whether a unit of a pattern covers a run of units: a star any run, a question mark one unit, both
without line breaks, and every other unit itself. -/
def Covers (p : Nat) (run : List Nat) : Prop :=
  if p = star then ∀ u ∈ run, isLineBreak u = false
  else if p = question then ∃ u, run = [u] ∧ isLineBreak u = false
  else run = [p]

/-- A text that can be cut into what the units of a pattern cover one by one. -/
def Matches (pattern text : List Nat) : Prop :=
  ∃ cut, List.Forall₂ Covers pattern cut ∧ cut.flatten = text

theorem matches_nil_iff {text : List Nat} : Matches [] text ↔ text = [] := by
  constructor
  · rintro ⟨cut, covered, rfl⟩
    cases covered
    rfl
  · rintro rfl
    exact ⟨[], .nil, rfl⟩

theorem matches_cons_iff {p : Nat} {ps text : List Nat} :
    Matches (p :: ps) text ↔ ∃ run rest, text = run ++ rest ∧ Covers p run ∧ Matches ps rest := by
  constructor
  · rintro ⟨cut, covered, rfl⟩
    obtain ⟨run, cut, hp, hps, rfl⟩ := List.forall₂_cons_left_iff.1 covered
    exact ⟨run, cut.flatten, rfl, hp, cut, hps, rfl⟩
  · rintro ⟨run, rest, rfl, hp, cut, hps, rfl⟩
    exact ⟨run :: cut, .cons hp hps, rfl⟩

/-! ## The regular expression of a pattern -/

/-- What the regular expression says for a unit of the pattern. -/
def unitSigns (p : Nat) : List Regex.Sign :=
  if p = star then [.atom .any, .star]
  else if p = question then [.atom .any]
  else [.atom (.unit p)]

/-- What a unit of the pattern asks of the text. -/
def unitStep (p : Nat) : Regex.Step :=
  if p = star then .many .any
  else if p = question then .one .any
  else .one (.unit p)

theorem unitStep_star : unitStep star = .many .any := if_pos rfl

theorem unitStep_question : unitStep question = .one .any := by
  rw [unitStep, if_neg (by decide), if_pos rfl]

theorem unitStep_self {p : Nat} (hs : p ≠ star) (hq : p ≠ question) :
    unitStep p = .one (.unit p) := by
  rw [unitStep, if_neg hs, if_neg hq]

/-- All units that are reserved and mean nothing in a pattern are escaped, and no other unit is. -/
theorem mem_escaped_iff {p : Nat} :
    p ∈ escaped ↔ p ∈ Regex.reserved ∧ p ≠ star ∧ p ≠ question := by
  constructor
  · have all : ∀ q ∈ escaped, q ∈ Regex.reserved ∧ q ≠ star ∧ q ≠ question := by decide
    exact all p
  · have all : ∀ q ∈ Regex.reserved, q ≠ star → q ≠ question → q ∈ escaped := by decide
    exact fun ⟨there, hs, hq⟩ => all p there hs hq

theorem signs_unitSource (p : Nat) (rest : List Nat) :
    Regex.signs false (unitSource p ++ rest)
      = (Regex.signs false rest).map (unitSigns p ++ ·) := by
  by_cases hs : p = star
  · subst hs
    rw [show unitSource star = ['.'.toNat, '*'.toNat] by decide,
      show unitSigns star = [.atom .any, .star] by decide, List.cons_append, Regex.signs_any,
      List.singleton_append, Regex.signs_star, Option.map_map]
    rfl
  by_cases hq : p = question
  · subst hq
    rw [show unitSource question = ['.'.toNat] by decide,
      show unitSigns question = [.atom .any] by decide, List.singleton_append, Regex.signs_any]
    rfl
  · rw [unitSource, unitSigns, if_neg (by simpa using hs), if_neg (by simpa using hq), if_neg hs,
      if_neg hq]
    by_cases he : p ∈ escaped
    · rw [if_pos (List.contains_iff_mem.2 he)]
      exact Regex.signs_escape (mem_escaped_iff.1 he).1 rest
    · rw [if_neg (by simpa using he)]
      exact Regex.signs_of_not_reserved (fun there => he (mem_escaped_iff.2 ⟨there, hs, hq⟩)) rest

theorem signs_flatMap_unitSource (pattern rest : List Nat) :
    Regex.signs false (pattern.flatMap unitSource ++ rest)
      = (Regex.signs false rest).map (pattern.flatMap unitSigns ++ ·) := by
  induction pattern with
  | nil => simp
  | cons p ps ih =>
    rw [List.flatMap_cons, List.append_assoc, signs_unitSource, ih, Option.map_map]
    simp [Function.comp_def]

theorem signs_source (pattern : List Nat) :
    Regex.signs false (source pattern)
      = some (.start :: (pattern.flatMap unitSigns ++ [.finish])) := by
  have finish : Regex.signs false ['$'.toNat] = some [.finish] := by decide
  have start : Regex.sign? '^'.toNat = some .start := by decide
  have unescaped : ('^'.toNat == Regex.escape) = false := by decide
  rw [source, Regex.signs, if_neg Bool.false_ne_true, unescaped, start,
    signs_flatMap_unitSource, finish]
  rfl

/-- No star stands at the start of what becomes of a pattern, so none is taken for the sign behind
the unit before it. -/
theorem head?_signs_ne_star (pattern : List Nat) :
    (pattern.flatMap unitSigns ++ [Regex.Sign.finish]).head? ≠ some .star := by
  cases pattern with
  | nil => decide
  | cons p ps =>
    rw [List.flatMap_cons, unitSigns]
    split
    · simp
    · split <;> simp

theorem steps_signs (pattern : List Nat) :
    Regex.steps (pattern.flatMap unitSigns ++ [.finish])
      = some (pattern.map unitStep ++ [.finish]) := by
  induction pattern with
  | nil => rfl
  | cons p ps ih =>
    rw [List.flatMap_cons, List.append_assoc, List.map_cons, unitSigns, unitStep]
    split
    · change (Regex.steps (ps.flatMap unitSigns ++ [.finish])).map _ = _
      rw [ih]
      rfl
    · split <;>
      · rw [List.singleton_append, Regex.steps_atom _ (head?_signs_ne_star ps), ih]
        rfl

/-- The regular expression of a pattern is read as one step for each unit between the anchors. -/
theorem read?_source (pattern : List Nat) :
    Regex.read? (source pattern) = some (.start :: (pattern.map unitStep ++ [.finish])) := by
  rw [Regex.read?, signs_source, Option.bind_some, Regex.steps, steps_signs]
  rfl

theorem passes_iff {pattern text : List Nat} {atStart : Bool} :
    Regex.passes (pattern.map unitStep ++ [.finish]) atStart text = true
      ↔ Matches pattern text := by
  induction pattern generalizing text atStart with
  | nil => simp [Regex.passes, matches_nil_iff]
  | cons p ps ih =>
    rw [matches_cons_iff, List.map_cons, List.cons_append]
    by_cases hs : p = star
    · subst hs
      have covers (run : List Nat) : Covers star run ↔ ∀ u ∈ run, Regex.Atom.any.takes u = true := by
        simp [Covers, Regex.Atom.takes]
      simp only [unitStep_star, Regex.passes, Regex.past_iff, ih, covers]
    by_cases hq : p = question
    · subst hq
      have covers (run : List Nat) : Covers question run ↔ ∃ u, run = [u] ∧ isLineBreak u = false := by
        rw [Covers, if_neg (by decide), if_pos rfl]
      rw [unitStep_question]
      cases text with
      | nil => simp [Regex.passes, covers]
      | cons u us =>
        rw [Regex.passes, Bool.and_eq_true, ih, Regex.Atom.takes, Bool.not_eq_true']
        constructor
        · rintro ⟨taken, more⟩
          exact ⟨[u], us, rfl, (covers [u]).2 ⟨u, rfl, taken⟩, more⟩
        · rintro ⟨run, rest, whole, covered, more⟩
          obtain ⟨v, rfl, taken⟩ := (covers run).1 covered
          obtain ⟨rfl, rfl⟩ := List.cons.inj whole
          exact ⟨taken, more⟩
    · have covers (run : List Nat) : Covers p run ↔ run = [p] := by
        rw [Covers, if_neg hs, if_neg hq]
      rw [unitStep_self hs hq]
      cases text with
      | nil => simp [Regex.passes, covers]
      | cons u us =>
        rw [Regex.passes, Bool.and_eq_true, ih, Regex.Atom.takes, beq_iff_eq]
        constructor
        · rintro ⟨rfl, more⟩
          exact ⟨[p], us, rfl, (covers [p]).2 rfl, more⟩
        · rintro ⟨run, rest, whole, covered, more⟩
          rw [(covers run).1 covered] at whole
          obtain ⟨rfl, rfl⟩ := List.cons.inj whole
          exact ⟨rfl, more⟩

theorem isMatch_iff {pattern text : String} :
    isMatch pattern text = true ↔
      Matches (Text.units pattern.toList) (Text.units text.toList) := by
  rw [isMatch, read?_source]
  simp only [Regex.test_start, passes_iff]

theorem isMatch_self (name : String) : isMatch name name = true := by
  rw [isMatch_iff]
  induction Text.units name.toList with
  | nil => exact matches_nil_iff.2 rfl
  | cons u us ih =>
    refine matches_cons_iff.2 ⟨[u], us, rfl, ?_, ih⟩
    unfold Covers
    split
    · next star =>
      subst star
      decide
    · split
      · next question =>
        subst question
        exact ⟨_, rfl, by decide⟩
      · rfl

instance (pattern text : List Nat) : Decidable (Matches pattern text) :=
  decidable_of_iff (Regex.passes (pattern.map unitStep ++ [.finish]) true text = true) passes_iff

/-- **Patterns mean what they say.** The regular expression of every pattern is read, and the names
that are selected are those that match one of the patterns, in their order and with their
repetitions. -/
theorem patterns_mean_cuts (patterns names : List String) :
    (∀ pattern, (Regex.read? (source (Text.units pattern))).isSome) ∧
      select patterns names = names.filter fun name =>
        ∃ pattern ∈ patterns, Matches (Text.units pattern.toList) (Text.units name.toList) := by
  constructor
  · intro pattern
    rw [read?_source, Option.isSome_some]
  · refine List.filter_congr fun name _ => ?_
    rw [Bool.eq_iff_iff, List.any_eq_true, decide_eq_true_iff]
    exact exists_congr fun pattern => and_congr_right fun _ => isMatch_iff

/-- A point stands for itself, and two stars side by side cover what one does. -/
example : select ["s**", "a.?"] ["socks", "ab", "a.b", "docs", "a.b"] = ["socks", "a.b", "a.b"] := by
  decide +kernel

end Glob

end DepClause
