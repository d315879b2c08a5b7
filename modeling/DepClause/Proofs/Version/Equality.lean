import DepClause.Proofs.Label.LocalParts
import DepClause.Proofs.Version.Keys
import DepClause.Proofs.Version.Release

/-!
# Equal versions

Versions that were read compare as equal just if they have all their parts in common but the zeros
behind their releases.
-/

namespace DepClause

theorem Phase.rank_inj {p q : Phase} (h : p.rank = q.rank) : p = q := by
  cases p <;> cases q <;> first | rfl | cases h

namespace Version

variable {v w : Version}

/-! ## Part by part -/

theorem pre_eq_of_comparePre (h : comparePre v w = .eq) : v.pre = w.pre := by
  rw [comparePre_eq] at h
  have keys := Std.LawfulEqOrd.eq_of_compare h
  unfold preKey at keys
  cases hv : v.pre with
  | none =>
    cases hw : w.pre with
    | none => rfl
    | some q => simp [hv, hw] at keys
  | some p =>
    cases hw : w.pre with
    | none => simp [hv, hw] at keys
    | some q =>
      simp only [hv, hw, List.cons.injEq, true_and, and_true] at keys
      have phase : p.phase = q.phase := Phase.rank_inj keys.1
      have number : p.number = q.number := keys.2
      rw [show p = q by cases p; cases q; simp_all]

theorem post_eq_of_comparePost (h : comparePost v w = .eq) : v.post = w.post := by
  unfold comparePost at h
  split at h <;> simp_all

theorem dev_eq_of_compareDev (h : compareDev v w = .eq) : v.dev = w.dev := by
  unfold compareDev at h
  split at h <;> simp_all

theorem localParts_eq_of_compareLocal (hv : v.WellFormed) (hw : w.WellFormed)
    (h : compareLocal v w = .eq) : v.localParts = w.localParts := by
  unfold compareLocal at h
  cases hps : v.localParts with
  | none =>
    cases hqs : w.localParts with
    | none => rfl
    | some qs => simp [hps, hqs] at h
  | some ps =>
    cases hqs : w.localParts with
    | none => simp [hps, hqs] at h
    | some qs =>
      simp only [hps, hqs] at h
      rw [eq_of_compareLocals (hv.parts ps hps) (hw.parts qs hqs) h]

/-! ## All parts -/

/-- Two versions that differ in nothing but the zeros behind their releases. -/
structure SameParts (v w : Version) : Prop where
  epoch : v.epoch = w.epoch
  release : comparePadded v.release w.release = .eq
  pre : v.pre = w.pre
  post : v.post = w.post
  dev : v.dev = w.dev
  localParts : v.localParts = w.localParts

theorem sameParts_of_compare (hv : v.WellFormed) (hw : w.WellFormed) (h : compare v w = .eq) :
    SameParts v w := by
  simp only [compare, Ordering.then_eq_eq] at h
  obtain ⟨epoch, release, pre, post, dev, parts⟩ := h
  rw [compareRelease_eq hv.release_ne_nil hw.release_ne_nil] at release
  constructor
  · exact Nat.compare_eq_eq.1 epoch
  · exact release
  · exact pre_eq_of_comparePre pre
  · exact post_eq_of_comparePost post
  · exact dev_eq_of_compareDev dev
  · exact localParts_eq_of_compareLocal hv hw parts

theorem SameParts.compare_eq (h : SameParts v w) (hv : v.release ≠ []) (hw : w.release ≠ []) :
    compare v w = .eq := by
  have release : compareRelease v w = .eq := by rw [compareRelease_eq hv hw, h.release]
  have pre : comparePre v w = .eq := by
    have rank : v.preRank = w.preRank := by simp only [preRank, h.pre, h.post, h.dev]
    rw [comparePre_eq, show v.preKey = w.preKey by simp only [preKey, h.pre, rank]]
    exact Std.ReflCmp.compare_self
  have post : comparePost v w = .eq := by
    rw [comparePost_eq, h.post]
    exact Std.ReflCmp.compare_self
  have dev : compareDev v w = .eq := by
    rw [compareDev_eq, show v.devKey = w.devKey by simp only [devKey, h.dev]]
    exact Std.ReflCmp.compare_self
  have parts : compareLocal v w = .eq := by
    rw [compareLocal_eq, h.localParts]
    exact Std.ReflCmp.compare_self
  simp only [compare, Ordering.then_eq_eq]
  exact ⟨Nat.compare_eq_eq.2 h.epoch, release, pre, post, dev, parts⟩

theorem SameParts.withoutLocal (h : SameParts v w) : SameParts v.withoutLocal w.withoutLocal :=
  ⟨h.epoch, h.release, h.pre, h.post, h.dev, rfl⟩

theorem WellFormed.withoutLocal (h : v.WellFormed) : v.withoutLocal.WellFormed where
  release_ne_nil := h.release_ne_nil
  parts_ne_nil _ hp := by cases hp
  parts _ hp := by cases hp

end Version

end DepClause
