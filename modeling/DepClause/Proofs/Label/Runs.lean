import DepClause.Label.Basic
import DepClause.Proofs.Text

/-!
# The order of labels as an order of runs

`runs` cuts a label into its runs, closed by one that stands for the end. `compareVersions_eq` says
that labels compare as these lists do, run by run: so the order of labels can be read off what a
label consists of, with no walk along two texts.
-/

namespace DepClause.Label

inductive Run where
  | tilde
  | stop
  | caret
  | letters (ls : List Nat)
  | number (n : Nat)
  deriving DecidableEq, Repr

namespace Run

def lead : Run → Lead
  | .tilde => .tilde
  | .stop => .stop
  | .caret => .caret
  | .letters _ => .letter
  | .number _ => .digit

/-- Runs by their kinds, two letter runs by their letters and two numbers by their values. -/
def compare : Run → Run → Ordering
  | .letters v, .letters w => Ord.compare v w
  | .number m, .number n => Ord.compare m n
  | r, s => Ord.compare r.lead.rank s.lead.rank

theorem compare_of_lead_ne {r s : Run} (h : r.lead ≠ s.lead) :
    r.compare s = Ord.compare r.lead.rank s.lead.rank := by
  cases r <;> cases s <;> first | rfl | exact absurd rfl h

end Run

theorem Lead.rank_inj {l m : Lead} (h : l.rank = m.rank) : l = m := by
  cases l <;> cases m <;> first | rfl | cases h

/-- The runs of a text. The end of the text is the last of them. -/
def runs (a : List Char) : List Run :=
  let s := skipSeparators a
  match _h : lead s with
  | .stop => [.stop]
  | .tilde => .tilde :: runs (s.drop 1)
  | .caret => .caret :: runs (s.drop 1)
  | .letter => .letters (letterRun s) :: runs ((s.drop 1).dropWhile Char.isAlpha)
  | .digit => .number (digitRun s) :: runs ((s.drop 1).dropWhile Char.isDigit)
termination_by a.length
decreasing_by
  all_goals
    have h0 := length_pos_of_lead (s := skipSeparators a) (by rw [_h]; decide)
    have ha := length_skipSeparators_le a
    have hd := Text.length_dropWhile_le Char.isDigit ((skipSeparators a).drop 1)
    have hl := Text.length_dropWhile_le Char.isAlpha ((skipSeparators a).drop 1)
    simp only [List.length_drop] at *
    omega

section
variable {a : List Char}

theorem runs_of_stop (h : lead (skipSeparators a) = .stop) : runs a = [.stop] := by
  rw [runs]
  split <;> simp_all

theorem runs_of_tilde (h : lead (skipSeparators a) = .tilde) :
    runs a = .tilde :: runs ((skipSeparators a).drop 1) := by
  rw [runs]
  split <;> simp_all

theorem runs_of_caret (h : lead (skipSeparators a) = .caret) :
    runs a = .caret :: runs ((skipSeparators a).drop 1) := by
  rw [runs]
  split <;> simp_all

theorem runs_of_letter (h : lead (skipSeparators a) = .letter) :
    runs a = .letters (letterRun (skipSeparators a)) ::
      runs (((skipSeparators a).drop 1).dropWhile Char.isAlpha) := by
  rw [runs]
  split <;> simp_all

theorem runs_of_digit (h : lead (skipSeparators a) = .digit) :
    runs a = .number (digitRun (skipSeparators a)) ::
      runs (((skipSeparators a).drop 1).dropWhile Char.isDigit) := by
  rw [runs]
  split <;> simp_all

end

/-- The first run is of the kind that stands in front. -/
theorem runs_eq_cons (a : List Char) :
    ∃ r rs, runs a = r :: rs ∧ r.lead = lead (skipSeparators a) := by
  cases h : lead (skipSeparators a) with
  | tilde => exact ⟨_, _, runs_of_tilde h, rfl⟩
  | stop => exact ⟨_, _, runs_of_stop h, rfl⟩
  | caret => exact ⟨_, _, runs_of_caret h, rfl⟩
  | letter => exact ⟨_, _, runs_of_letter h, rfl⟩
  | digit => exact ⟨_, _, runs_of_digit h, rfl⟩

/-- Lists of runs, run by run. -/
def compareRuns (rs ss : List Run) : Ordering := List.compareLex Run.compare rs ss

theorem compareRuns_cons (r s : Run) (rs ss : List Run) :
    compareRuns (r :: rs) (s :: ss) = (r.compare s).then (compareRuns rs ss) :=
  List.compareLex_cons_cons

/-- Runs of different kinds decide. -/
theorem compareRuns_of_lead_ne {r s : Run} (rs ss : List Run) (h : r.lead ≠ s.lead) :
    compareRuns (r :: rs) (s :: ss) = Ord.compare r.lead.rank s.lead.rank := by
  have hne : Ord.compare r.lead.rank s.lead.rank ≠ .eq :=
    fun he => h (Lead.rank_inj (Nat.compare_eq_eq.1 he))
  rw [compareRuns_cons, Run.compare_of_lead_ne h]
  cases hc : Ord.compare r.lead.rank s.lead.rank with
  | lt => rfl
  | eq => exact absurd hc hne
  | gt => rfl

/-- The walk along two labels is the comparison of their runs. -/
theorem compareVersions_eq (a b : List Char) :
    compareVersions a b = compareRuns (runs a) (runs b) := by
  fun_induction compareVersions a b with
  | case1 a b s t hs ht ih =>
    rw [runs_of_tilde hs, runs_of_tilde ht, ih]
    rfl
  | case2 a b s t hs ht ih =>
    rw [runs_of_caret hs, runs_of_caret ht, ih]
    rfl
  | case3 a b s t hs ht =>
    rw [runs_of_stop hs, runs_of_stop ht]
    rfl
  | case4 a b s t hs ht ih =>
    rw [runs_of_digit hs, runs_of_digit ht, compareRuns_cons, ih]
    rfl
  | case5 a b s t hs ht ih =>
    rw [runs_of_letter hs, runs_of_letter ht, compareRuns_cons, ih]
    rfl
  | case6 a b s t tilde caret stop digit letter =>
    obtain ⟨r, rs, hr, hrl⟩ := runs_eq_cons a
    obtain ⟨q, qs, hq, hql⟩ := runs_eq_cons b
    have hne : lead s ≠ lead t := by
      intro h
      cases hs : lead s with
      | tilde => exact tilde hs (h ▸ hs)
      | stop => exact stop hs (h ▸ hs)
      | caret => exact caret hs (h ▸ hs)
      | letter => exact letter hs (h ▸ hs)
      | digit => exact digit hs (h ▸ hs)
    rw [hr, hq, compareRuns_of_lead_ne rs qs (hrl ▸ hql ▸ hne), hrl, hql]

end DepClause.Label
