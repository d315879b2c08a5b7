import Mathlib
import DepClause.Proofs.Version.Keys
import DepClause.Proofs.Version.Release
import DepClause.Proofs.Version.WellFormed

/-!
# The grade of a version

A linear order that versions fall into, said apart from how they are compared. The grade of a
version holds, from what decides first to what decides last,

* its epoch;
* its release, going on with zeros for ever;
* its pre-release, with all development versions of the release itself below and everything without
  a pre-release above;
* its post-release, where none is lowest;
* its development number, where none is highest;
* its local parts, where none is lowest, words lie below numbers and a proper prefix comes first.

`compares_grade` says that versions stand to each other as their grades do.
-/

namespace DepClause

/-- Words by their units, all of them below the numbers. -/
def LocalPart.grade : LocalPart → List ℕ ⊕ₗ ℕ
  | .word w => toLex (.inl (Text.units w.toList))
  | .number n => toLex (.inr n)

namespace Version

abbrev Grade : Type :=
  ℕ ×ₗ Lex (ℕ → ℕ) ×ₗ WithTop (WithBot (ℕ ×ₗ ℕ)) ×ₗ WithBot ℕ ×ₗ WithTop ℕ ×ₗ
    WithBot (List (List ℕ ⊕ₗ ℕ))

def releaseGrade (release : List ℕ) : Lex (ℕ → ℕ) := toLex fun i => release.getD i 0

def preGrade (v : Version) : WithTop (WithBot (ℕ ×ₗ ℕ)) :=
  match v.pre, v.post, v.dev with
  | some p, _, _ => ↑(↑(toLex (p.phase.rank, p.number)) : WithBot (ℕ ×ₗ ℕ))
  | none, none, some _ => ↑(⊥ : WithBot (ℕ ×ₗ ℕ))
  | none, _, _ => ⊤

def postGrade (v : Version) : WithBot ℕ :=
  match v.post with
  | some n => WithBot.some n
  | none => ⊥

def devGrade (v : Version) : WithTop ℕ :=
  match v.dev with
  | some n => WithTop.some n
  | none => ⊤

def localGrade (v : Version) : WithBot (List (List ℕ ⊕ₗ ℕ)) :=
  match v.localParts with
  | some ps => ↑(ps.map LocalPart.grade)
  | none => ⊥

def grade (v : Version) : Grade :=
  toLex (v.epoch, toLex (releaseGrade v.release, toLex (v.preGrade, toLex (v.postGrade,
    toLex (v.devGrade, v.localGrade)))))

/-! ## Part by part -/

theorem compares_releaseGrade (ms ns : List ℕ) :
    (comparePadded ms ns).Compares (releaseGrade ms) (releaseGrade ns) := by
  fun_induction comparePadded ms ns with
  | case1 => rfl
  | case2 n ns ih => exact compares_sequence (compares_compare 0 n) ih
  | case3 m ms ih => exact compares_sequence (compares_compare m 0) ih
  | case4 m ms n ns ih => exact compares_sequence (compares_compare m n) ih

theorem preGrade_cases (v : Version) :
    (v.pre = none ∧ v.preRank = 0 ∧ v.preGrade = ↑(⊥ : WithBot (ℕ ×ₗ ℕ))) ∨
      (∃ p, v.pre = some p ∧ v.preRank = 1 ∧
        v.preGrade = ↑(↑(toLex (p.phase.rank, p.number)) : WithBot (ℕ ×ₗ ℕ))) ∨
      (v.pre = none ∧ v.preRank = 2 ∧ v.preGrade = ⊤) := by
  unfold preRank preGrade
  cases v.pre with
  | some p => exact .inr (.inl ⟨p, rfl, rfl, rfl⟩)
  | none =>
    cases v.post with
    | some n => exact .inr (.inr ⟨rfl, rfl, rfl⟩)
    | none =>
      cases v.dev with
      | some n => exact .inl ⟨rfl, rfl, rfl⟩
      | none => exact .inr (.inr ⟨rfl, rfl, rfl⟩)

theorem compares_preGrade (v w : Version) : (comparePre v w).Compares v.preGrade w.preGrade := by
  have low (k : ℕ ×ₗ ℕ) : (↑(⊥ : WithBot (ℕ ×ₗ ℕ)) : WithTop (WithBot (ℕ ×ₗ ℕ))) < ↑↑k :=
    WithTop.coe_lt_coe.2 (WithBot.bot_lt_coe k)
  unfold comparePre
  rcases preGrade_cases v with ⟨vpre, vrank, vgrade⟩ | ⟨p, vpre, vrank, vgrade⟩ |
      ⟨vpre, vrank, vgrade⟩ <;>
    rcases preGrade_cases w with ⟨wpre, wrank, wgrade⟩ | ⟨q, wpre, wrank, wgrade⟩ |
      ⟨wpre, wrank, wgrade⟩ <;>
    rw [vpre, vrank, vgrade, wpre, wrank, wgrade]
  · rfl
  · exact low _
  · exact WithTop.coe_lt_top _
  · exact low _
  · have pair := compares_pair (compares_compare p.phase.rank q.phase.rank)
      (compares_compare p.number q.number)
    rw [Std.ReflOrd.compare_self, Ordering.eq_then]
    exact WithTop.coe_strictMono.compares.2 (WithBot.coe_strictMono.compares.2 pair)
  · exact WithTop.coe_lt_top _
  · exact WithTop.coe_lt_top _
  · exact WithTop.coe_lt_top _
  · rfl

theorem compares_postGrade (v w : Version) :
    (comparePost v w).Compares v.postGrade w.postGrade := by
  unfold comparePost postGrade
  cases v.post with
  | none =>
    cases w.post with
    | none => rfl
    | some n => exact WithBot.bot_lt_coe n
  | some m =>
    cases w.post with
    | none => exact WithBot.bot_lt_coe m
    | some n => exact WithBot.coe_strictMono.compares.2 (compares_compare m n)

theorem compares_devGrade (v w : Version) : (compareDev v w).Compares v.devGrade w.devGrade := by
  unfold compareDev devGrade
  cases v.dev with
  | none =>
    cases w.dev with
    | none => rfl
    | some n => exact WithTop.coe_lt_top n
  | some m =>
    cases w.dev with
    | none => exact WithTop.coe_lt_top m
    | some n => exact WithTop.coe_strictMono.compares.2 (compares_compare m n)

theorem compares_localPart (p q : LocalPart) : (p.compare q).Compares p.grade q.grade := by
  cases p with
  | number m =>
    cases q with
    | number n => exact Sum.Lex.inr_strictMono.compares.2 (compares_compare m n)
    | word w => exact Sum.Lex.inl_lt_inr _ _
  | word v =>
    cases q with
    | number n => exact Sum.Lex.inl_lt_inr _ _
    | word w => exact Sum.Lex.inl_strictMono.compares.2 (compares_list _ _)

theorem compares_localGrade (v w : Version) :
    (compareLocal v w).Compares v.localGrade w.localGrade := by
  unfold compareLocal localGrade
  cases v.localParts with
  | none =>
    cases w.localParts with
    | none => rfl
    | some qs => exact WithBot.bot_lt_coe _
  | some ps =>
    cases w.localParts with
    | none => exact WithBot.bot_lt_coe _
    | some qs => exact WithBot.coe_strictMono.compares.2 (compares_map compares_localPart ps qs)

theorem compares_grade {v w : Version} (hv : v.WellFormed) (hw : w.WellFormed) :
    (compare v w).Compares v.grade w.grade := by
  unfold compare
  rw [compareRelease_eq hv.release_ne_nil hw.release_ne_nil]
  exact compares_pair (compares_compare v.epoch w.epoch) <|
    compares_pair (compares_releaseGrade v.release w.release) <|
      compares_pair (compares_preGrade v w) <|
        compares_pair (compares_postGrade v w) <|
          compares_pair (compares_devGrade v w) (compares_localGrade v w)

/-- **Versions are ordered by their grades.** Literals compare as the grades of the versions that
they write: so their comparison turns round with its sides, is transitive, and finds equal just the
versions of one grade. -/
theorem versions_follow_grades {r s t : String} {u v w : Version} (hu : parse r = .ok u)
    (hv : parse s = .ok v) (hw : parse t = .ok w) :
    compare u v = cmp u.grade v.grade ∧
      compare u v = (compare v u).swap ∧
      ((compare u v).isLE → (compare v w).isLE → (compare u w).isLE) ∧
      (compare u v = .eq ↔ u.grade = v.grade) := by
  have uv := compares_grade (parse_wellFormed hu) (parse_wellFormed hv)
  have vu := compares_grade (parse_wellFormed hv) (parse_wellFormed hu)
  have vw := compares_grade (parse_wellFormed hv) (parse_wellFormed hw)
  have uw := compares_grade (parse_wellFormed hu) (parse_wellFormed hw)
  have isLE {o : Ordering} {a b : Grade} (h : o.Compares a b) : o.isLE ↔ a ≤ b := by
    rw [← h.ne_gt, Ordering.isLE_iff_ne_gt]
  refine ⟨uv.cmp_eq.symm, ?_, ?_, uv.eq_eq⟩
  · rw [← uv.cmp_eq, ← vu.cmp_eq, cmp_swap]
  · rw [isLE uv, isLE vw, isLE uw]
    exact le_trans

/-- A development version of a pre-release lies above those of the release itself. -/
theorem versions_follow_grades_of_development :
    parse "1.0.dev3" = .ok { release := [1, 0], dev := some 3 } ∧
      parse "v1_alpha.dev0" = .ok { release := [1], pre := some ⟨.alpha, 0⟩, dev := some 0 } ∧
      parse "1.0.0+x.10" =
        .ok { release := [1, 0, 0], localParts := some [.word "x", .number 10] } ∧
      cmp (grade { release := [1, 0], dev := some 3 })
        (grade { release := [1], pre := some ⟨.alpha, 0⟩, dev := some 0 }) = .lt ∧
      (compare { release := [1, 0], dev := some 3 }
        { release := [1, 0, 0], localParts := some [.word "x", .number 10] }).isLE := by
  have dev : parse "1.0.dev3" = .ok { release := [1, 0], dev := some 3 } := by cbv
  have pre : parse "v1_alpha.dev0" =
      .ok { release := [1], pre := some ⟨.alpha, 0⟩, dev := some 0 } := by cbv
  have final : parse "1.0.0+x.10" =
      .ok { release := [1, 0, 0], localParts := some [.word "x", .number 10] } := by cbv
  obtain ⟨grades, _, trans, _⟩ := versions_follow_grades dev pre final
  exact ⟨dev, pre, final, grades.symm.trans (by decide), trans (by decide) (by decide)⟩

end Version

end DepClause
