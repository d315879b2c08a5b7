import DepClause.Marker.Printer
import DepClause.Proofs.Marker.Evaluation

/-!
# Runs of one connective

How the members of a run of `and` or of `or` are grouped does not show. Markers that differ in
nothing else have the same comparisons in the same order, are written alike, and are evaluated alike
in every scope: to the same Boolean, to conditions of the same text, or to the same failure.
-/

namespace DepClause

/-- What is shown of a value: a Boolean, or the text of a condition. -/
inductive Shown where
  | boolean (value : Bool)
  | condition (text : String)
  deriving DecidableEq, Repr

def Verdict.shown : Verdict → Shown
  | .known b => .boolean b
  | .deferred c => .condition c.render

/-- A connective on what is shown of its sides. -/
def Connective.combine (op : Connective) :
    Except Failure Shown → Except Failure Shown → Except Failure Shown
  | .error e, _ => .error e
  | .ok (.boolean b), y => if b = op.decider then .ok (.boolean b) else y
  | .ok (.condition _), .error e => .error e
  | .ok (.condition s), .ok (.boolean b) =>
    .ok (if b = op.decider then .boolean b else .condition s)
  | .ok (.condition s), .ok (.condition t) => .ok (.condition (s ++ op.text ++ t))

/-- A failure behind a condition counts, one behind a side that decides does not, and either way of
grouping three sides reaches the same ones. -/
theorem Connective.combine_assoc (op : Connective) (x y z : Except Failure Shown) :
    op.combine (op.combine x y) z = op.combine x (op.combine y z) := by
  cases x with
  | error e => rfl
  | ok x =>
    cases x with
    | boolean b => by_cases hb : b = op.decider <;> simp [combine, hb]
    | condition s =>
      cases y with
      | error e => rfl
      | ok y =>
        cases y with
        | boolean b => by_cases hb : b = op.decider <;> simp [combine, hb]
        | condition t =>
          cases z with
          | error e => rfl
          | ok z =>
            cases z with
            | boolean b => by_cases hb : b = op.decider <;> simp [combine, hb]
            | condition u => simp [combine, String.append_assoc]

namespace Marker

/-- What is shown of the value of a marker, or why it has none. -/
def outcome (scope : Scope) (m : Marker) : Except Failure Shown :=
  (m.evaluate scope).map Verdict.shown

theorem outcome_join (scope : Scope) (op : Connective) (l r : Marker) :
    (op.marker l r).outcome scope = op.combine (l.outcome scope) (r.outcome scope) := by
  unfold outcome
  rcases evaluate_cases op scope l with ⟨e, hl⟩ | hl | hl | ⟨c, hl⟩
  · rw [evaluate_join_error hl, hl]
    rfl
  · rw [evaluate_join_decided hl, hl]
    simp [Except.map, Verdict.shown, Connective.combine]
  · rw [evaluate_join_neutral hl, hl]
    simp [Except.map, Verdict.shown, Connective.combine]
  · rw [evaluate_join_deferred hl, hl]
    rcases evaluate_cases op scope r with ⟨e, hr⟩ | hr | hr | ⟨d, hr⟩ <;>
      simp [hr, Except.map, Verdict.shown, Connective.combine, op.render_condition]

def comparisons : Marker → List Comparison
  | .comparison c => [c]
  | .and l r => l.comparisons ++ r.comparisons
  | .or l r => l.comparisons ++ r.comparisons

theorem comparisons_join (op : Connective) (l r : Marker) :
    (op.marker l r).comparisons = l.comparisons ++ r.comparisons := by
  cases op <;> rfl

/-- The markers that come from each other by grouping runs of one connective anew. -/
inductive Regrouped : Marker → Marker → Prop where
  | refl (m : Marker) : Regrouped m m
  | symm {m n : Marker} (h : Regrouped m n) : Regrouped n m
  | trans {m n k : Marker} (h : Regrouped m n) (h' : Regrouped n k) : Regrouped m k
  | assoc (op : Connective) (a b c : Marker) :
      Regrouped (op.marker (op.marker a b) c) (op.marker a (op.marker b c))
  | join (op : Connective) {a b c d : Marker} (hl : Regrouped a c) (hr : Regrouped b d) :
      Regrouped (op.marker a b) (op.marker c d)

namespace Regrouped

variable {m n : Marker}

theorem comparisons_eq (h : Regrouped m n) : m.comparisons = n.comparisons := by
  induction h with
  | refl m => rfl
  | symm _ ih => exact ih.symm
  | trans _ _ ih ih' => exact ih.trans ih'
  | assoc op a b c => simp only [comparisons_join, List.append_assoc]
  | join op _ _ ihl ihr => rw [comparisons_join, comparisons_join, ihl, ihr]

theorem outcome_eq (h : Regrouped m n) (scope : Scope) : m.outcome scope = n.outcome scope := by
  induction h with
  | refl m => rfl
  | symm _ ih => exact ih.symm
  | trans _ _ ih ih' => exact ih.trans ih'
  | assoc op a b c => simp only [outcome_join, op.combine_assoc]
  | join op _ _ ihl ihr => rw [outcome_join, outcome_join, ihl, ihr]

/-- Grouping a run anew leaves its text, and whether parentheses are put around it. -/
theorem render_eq (h : Regrouped m n) : m.isOr = n.isOr ∧ m.render = n.render := by
  induction h with
  | refl m => exact ⟨rfl, rfl⟩
  | symm _ ih => exact ⟨ih.1.symm, ih.2.symm⟩
  | trans _ _ ih ih' => exact ⟨ih.1.trans ih'.1, ih.2.trans ih'.2⟩
  | assoc op a b c =>
    cases op <;> simp [Connective.marker, isOr, render, enclose, String.append_assoc]
  | join op _ _ ihl ihr =>
    cases op with
    | and => exact ⟨rfl, by simp only [Connective.marker, render, ihl, ihr]⟩
    | or => exact ⟨rfl, by simp only [Connective.marker, render, ihl, ihr]⟩

end Regrouped

end Marker

end DepClause
