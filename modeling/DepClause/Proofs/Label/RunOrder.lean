import DepClause.Proofs.Comparison
import DepClause.Proofs.Label.Runs

/-!
# The order of runs is transitive

Runs compare as their kinds do and then by what they hold, so rows of runs and the version texts of
labels have a transitive order. Labels have one as long as none of them has a release: a release
counts only where both labels have one.
-/

namespace DepClause.Label

namespace Run

/-- What a run holds besides its kind. -/
def contents : Run → List Nat
  | .letters ls => ls
  | .number n => [n]
  | .tilde | .stop | .caret => []

def key (r : Run) : List Nat := r.lead.rank :: r.contents

theorem compare_eq (r s : Run) : r.compare s = Ord.compare r.key s.key := by
  rw [key, key, List.compare_cons_cons]
  by_cases h : r.lead = s.lead
  · rw [h, Std.ReflOrd.compare_self, Ordering.eq_then]
    cases r with
    | letters v =>
      cases s with
      | letters w => rfl
      | _ => cases h
    | number m =>
      cases s with
      | number n => simp [compare, contents, List.compare_cons_cons]
      | _ => cases h
    | _ => cases s <;> first | rfl | cases h
  · have hne : Ord.compare r.lead.rank s.lead.rank ≠ .eq :=
      fun he => h (Lead.rank_inj (Nat.compare_eq_eq.1 he))
    rw [compare_of_lead_ne h]
    cases hc : Ord.compare r.lead.rank s.lead.rank with
    | lt => rfl
    | eq => exact absurd hc hne
    | gt => rfl

end Run

instance : Std.TransCmp Run.compare := transCmp_of_keys _ Run.key Run.compare_eq

instance : Std.TransCmp compareRuns :=
  inferInstanceAs (Std.TransCmp (List.compareLex Run.compare))

instance : Std.TransCmp compareVersions := transCmp_of_keys _ runs compareVersions_eq

/-- Labels by epoch and by version. -/
def compareBare (a b : Label) : Ordering :=
  (Ord.compare a.epoch b.epoch).then (compareVersions a.version.toList b.version.toList)

instance : Std.TransCmp compareBare :=
  have : Std.TransCmp fun a b : Label => compareVersions a.version.toList b.version.toList :=
    transCmp_of_keys _ (fun a => a.version.toList) fun _ _ => rfl
  inferInstanceAs (Std.TransCmp (compareLex (compareOn Label.epoch) fun a b : Label =>
    compareVersions a.version.toList b.version.toList))

theorem compare_eq_compareBare {a b : Label} (h : a.release = none) :
    a.compare b = a.compareBare b := by
  rw [compare, compareBare, h, Ordering.then_eq]

end DepClause.Label
