import DepClause.Proofs.Specifier.Clauses
import DepClause.Proofs.Version.Equality

/-!
# Equal versions are interchangeable

Versions that compare as equal have all their parts in common but the zeros behind their releases.
No operator looks at these zeros in a candidate, so a specifier contains equal versions alike. Nor
does it matter by which of them a specifier names its version, save for `~=` and for prefixes, which
count the numbers that are written.
-/

namespace DepClause

namespace Version

namespace SameParts

variable {v w u : Version}

theorem base (h : SameParts v w) : compareBase v w = .eq := by
  rw [compareBase, Ordering.then_eq_eq]
  exact ⟨Nat.compare_eq_eq.2 h.epoch, h.release⟩

theorem isPreRelease (h : SameParts v w) : v.isPreRelease = w.isPreRelease := by
  rw [Version.isPreRelease, Version.isPreRelease, h.pre, h.dev]

theorem isPostRelease (h : SameParts v w) : v.isPostRelease = w.isPostRelease := by
  rw [Version.isPostRelease, Version.isPostRelease, h.post]

theorem isLocal (h : SameParts v w) : v.isLocal = w.isLocal := by
  rw [Version.isLocal, Version.isLocal, h.localParts]

theorem sameBase_left (h : SameParts v w) (hv : v.release ≠ []) (hw : w.release ≠ [])
    (hu : u.release ≠ []) : v.sameBase u = w.sameBase u := by
  rw [Bool.eq_iff_iff, sameBase_iff hv hu, sameBase_iff hw hu, Std.TransCmp.congr_left h.base]

theorem sameBase_right (h : SameParts v w) (hv : v.release ≠ []) (hw : w.release ≠ [])
    (hu : u.release ≠ []) : u.sameBase v = u.sameBase w := by
  rw [Bool.eq_iff_iff, sameBase_iff hu hv, sameBase_iff hu hw, Std.TransCmp.congr_right h.base]

end SameParts

end Version

namespace Comparator

variable {v w u : Version}

/-- Operators do not tell candidates with the same parts apart. -/
theorem holds_candidate_congr (h : v.SameParts w) (hv : v.release ≠ []) (hw : w.release ≠ [])
    (hu : u.release ≠ []) (op : Comparator) (wildcard : Bool) :
    op.holds wildcard v u = op.holds wildcard w u := by
  have whole : Version.compare v u = Version.compare w u :=
    Std.TransCmp.congr_left (h.compare_eq hv hw)
  have without : Version.compare v.withoutLocal u = Version.compare w.withoutLocal u :=
    Std.TransCmp.congr_left (h.withoutLocal.compare_eq hv hw)
  have equal : Version.compare (if u.isLocal then v else v.withoutLocal) u =
      Version.compare (if u.isLocal then w else w.withoutLocal) u := by
    split
    · exact whole
    · exact without
  have base : v.sameBase u = w.sameBase u := h.sameBase_left hv hw hu
  cases op <;>
    simp only [holds, whole, without, equal, base, Version.matchesPrefix_congr h.base,
      h.isPreRelease, h.isPostRelease, h.isLocal]

/-- Nor do they tell targets with the same parts apart, if they compare with the whole target. -/
theorem holds_target_congr (h : v.SameParts w) (hv : v.release ≠ []) (hw : w.release ≠ [])
    (hu : u.release ≠ []) {op : Comparator} (hop : op ≠ .compatible) :
    op.holds false u v = op.holds false u w := by
  have compared (c : Version) : Version.compare c v = Version.compare c w :=
    Std.TransCmp.congr_right (h.compare_eq hv hw)
  have base : u.sameBase v = u.sameBase w := h.sameBase_right hv hw hu
  cases op with
  | compatible => exact absurd rfl hop
  | _ =>
    simp only [holds, compared, base, h.isPreRelease, h.isPostRelease, h.isLocal,
      Bool.false_eq_true, if_false]

end Comparator

namespace Specifier

/-- **Equal versions are interchangeable.** A specifier that was read contains both of two equal
literals or neither. Put behind an operator that compares with the whole version, the two make
specifiers that contain the same. -/
theorem equal_versions_interchange {first second : String} {v w : Version}
    (hv : Version.parse first = .ok v) (hw : Version.parse second = .ok w)
    (h : Version.compare v w = .eq) :
    (∀ text s, parse text = .ok s → s.operator ≠ .identical →
      ∃ b, s.contains first = .ok b ∧ s.contains second = .ok b) ∧
    ∀ op, op ≠ .identical → op ≠ .compatible → ∀ candidate,
      contains ⟨op, first, false⟩ candidate = contains ⟨op, second, false⟩ candidate ∧
        ∀ c, Version.parse candidate = .ok c →
          ∃ b, contains ⟨op, first, false⟩ candidate = .ok b := by
  have hvw := Version.parse_wellFormed hv
  have hww := Version.parse_wellFormed hw
  have same := Version.sameParts_of_compare hvw hww h
  constructor
  · intro text s hs hop
    obtain ⟨u, target⟩ := parse_targets hs hop
    have hu := (Version.parse_wellFormed target.version).release_ne_nil
    refine ⟨_, contains_of_targets target hop hv, ?_⟩
    rw [contains_of_targets target hop hw,
      Comparator.holds_candidate_congr same hvw.release_ne_nil hww.release_ne_nil hu]
  · intro op hid hcomp candidate
    cases hc : Version.parse candidate with
    | error e =>
      refine ⟨?_, fun c hc => by cases hc⟩
      simp only [contains, hid, if_false, hc, bind, Except.bind]
    | ok c =>
      have hcr := (Version.parse_wellFormed hc).release_ne_nil
      rw [contains_of_targets (.of_whole hv hcomp) hid hc,
        contains_of_targets (.of_whole hw hcomp) hid hc]
      refine ⟨congrArg Except.ok ?_, fun _ _ => ⟨_, rfl⟩⟩
      exact Comparator.holds_target_congr same hvw.release_ne_nil hww.release_ne_nil hcr hcomp

/-- Spellings and zeros of a candidate: `<1` leaves it out in both. -/
theorem equal_versions_interchange_of_candidate :
    parse "<1" = .ok ⟨.less, "1", false⟩ ∧
      contains ⟨.less, "1", false⟩ "v1.0.0-C_1" = .ok false ∧
      contains ⟨.less, "1", false⟩ "1rc1" = .ok false ∧
      contains ⟨.greater, "v1.0.0-C_1", false⟩ "1.0.0+local" =
        contains ⟨.greater, "1rc1", false⟩ "1.0.0+local" := by
  have hs : parse "<1" = .ok ⟨.less, "1", false⟩ := by cbv
  have hv : Version.parse "v1.0.0-C_1" =
      .ok { release := [1, 0, 0], pre := some ⟨.candidate, 1⟩ } := by cbv
  have hw : Version.parse "1rc1" = .ok { release := [1], pre := some ⟨.candidate, 1⟩ } := by cbv
  obtain ⟨candidates, targets⟩ := equal_versions_interchange hv hw (by decide)
  obtain ⟨b, hb, hb'⟩ := candidates "<1" _ hs (by simp)
  have left : contains ⟨.less, "1", false⟩ "v1.0.0-C_1" = .ok false := by cbv
  obtain rfl : b = false := Except.ok.inj (hb.symm.trans left)
  exact ⟨hs, hb, hb', (targets .greater (by simp) (by simp) "1.0.0+local").1⟩

/-- `~=` counts the numbers that are written. -/
example : contains ⟨.compatible, "1.4", false⟩ "1.5" = .ok true ∧
    contains ⟨.compatible, "1.4.0", false⟩ "1.5" = .ok false := by
  constructor <;> cbv

end Specifier

end DepClause
