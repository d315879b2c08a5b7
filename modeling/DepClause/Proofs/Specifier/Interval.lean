import DepClause.Proofs.Specifier.Bound
import DepClause.Proofs.Specifier.Clauses

/-!
# Prefix matches as intervals

The versions whose release starts with that of `V` are an interval of the order of versions. It
opens with the lowest version of that release, `V.dev0`, and ends before the lowest version of the
release whose last number is greater by one. Hence the versions compatible with `V` are those from
`V` on and before the lowest version of the upper bound.
-/

namespace DepClause

namespace Version

/-! ## The lowest version of a release -/

/-- The lowest version of the release. -/
def first (v : Version) : Version := { v.base with dev := some 0 }

section
variable {v c : Version}

theorem preRank_first (v : Version) : v.first.preRank = 0 := rfl

/-- The first version lies below all pre-releases and releases. Beside it stand the development
versions of the release itself. -/
theorem comparePre_first (v c : Version) :
    comparePre v.first c = .lt ∨
      comparePre v.first c = .eq ∧ c.post = none ∧ ∃ n, c.dev = some n := by
  cases hpre : c.pre with
  | some p =>
    left
    rw [comparePre, preRank_first, preRank_of_some hpre]
    rfl
  | none =>
    cases hr : c.preRank with
    | succ k =>
      left
      rw [comparePre, preRank_first, hr, Nat.compare_eq_lt.2 k.succ_pos, Ordering.lt_then]
    | zero =>
      right
      have hdev : c.post = none ∧ ∃ n, c.dev = some n := by
        simpa [preRank, hpre, Option.isSome_iff_exists] using hr
      refine ⟨?_, hdev⟩
      rw [comparePre, preRank_first, hr, hpre]
      rfl

theorem compareDev_first {n : Nat} (h : c.dev = some n) : (compareDev v.first c).isLE = true := by
  simp [compareDev, first, h, Nat.isLE_compare]

theorem compareLocal_first (v c : Version) : (compareLocal v.first c).isLE = true := by
  cases h : c.localParts <;> simp [compareLocal, first, base, h]

/-- Among the versions of one release none lies below the first. -/
theorem first_parts_isLE (v c : Version) :
    ((comparePre v.first c).then ((comparePost v.first c).then
      ((compareDev v.first c).then (compareLocal v.first c)))).isLE = true := by
  rcases comparePre_first v c with h | ⟨h, hpost, n, hdev⟩
  · rw [h, Ordering.lt_then]
    rfl
  · have hp : comparePost v.first c = .eq := by simp [comparePost, first, base, hpost]
    rw [h, hp, Ordering.eq_then, Ordering.eq_then, Ordering.isLE_then_iff_and]
    exact ⟨compareDev_first hdev, .inr (compareLocal_first v c)⟩

theorem first_isLE_iff (hv : v.release ≠ []) (hc : c.release ≠ []) :
    (compare v.first c).isLE = true ↔ (compareBase v c).isLE = true := by
  have same : compareBase v.first c = compareBase v c := rfl
  rw [compare_eq_base_then (v := v.first) hv hc, same, Ordering.isLE_then_iff_and]
  exact and_iff_left (.inr (first_parts_isLE v c))

theorem lt_first_iff (hv : v.release ≠ []) (hc : c.release ≠ []) :
    compare c v.first = .lt ↔ compareBase c v = .lt := by
  calc
    compare c v.first = .lt ↔ compare v.first c = .gt := Std.OrientedCmp.gt_iff_lt.symm
    _ ↔ compareBase v c = .gt := by
      rw [← Ordering.isLE_eq_false, ← Ordering.isLE_eq_false, Bool.eq_false_iff, Bool.eq_false_iff]
      exact not_congr (first_isLE_iff hv hc)
    _ ↔ compareBase c v = .lt := Std.OrientedCmp.gt_iff_lt

/-! ## Prefixes -/

theorem next_release_ne_nil (hv : v.release ≠ []) : v.next.release ≠ [] := by
  obtain ⟨front, n, hr⟩ := (List.eq_nil_or_concat' v.release).resolve_left hv
  rw [next, hr, List.modifyLast_concat]
  simp

/-- **Prefix matches are intervals.** -/
theorem matchesPrefix_iff_between (hv : v.release ≠ []) (hc : c.release ≠ []) :
    c.matchesPrefix v = true ↔
      (compare v.first c).isLE = true ∧ compare c v.next.first = .lt := by
  rw [first_isLE_iff hv hc, lt_first_iff (next_release_ne_nil hv) hc]
  exact matchesPrefix_iff_base hv

end

end Version

namespace Specifier

section
variable {v c : Version} {up : List Nat} {input : Option String}

/-- The upper bound follows the release in front of the last number. -/
theorem next_dropLast (h : upperBound v input = .ok up) :
    ({ epoch := v.epoch, release := v.release.dropLast } : Version).next =
      { epoch := v.epoch, release := up } := by
  obtain ⟨front, n, hd, rfl⟩ := upperBound_eq_ok_iff.1 h
  rw [hd, Version.next_concat]

theorem lt_upperBound (hv : v.release ≠ []) (h : upperBound v input = .ok up) :
    Version.compare v { epoch := v.epoch, release := up } = .lt := by
  obtain ⟨front, n, hd, rfl⟩ := upperBound_eq_ok_iff.1 h
  refine Version.compare_bound_of_matchesPrefix hv ?_
  rw [← hd]
  exact Version.matchesPrefix_dropLast v

/-- A version from `v` on lies above the lowest version with the front of its release. -/
theorem holds_compatible_iff (h : upperBound v input = .ok up) (hv : v.release ≠ [])
    (hc : c.release ≠ []) (w : Bool) :
    Comparator.compatible.holds w c v = true ↔
      (Version.compare c v).isGE = true ∧
        Version.compare c (Version.first { epoch := v.epoch, release := up }) = .lt := by
  let front : Version := { epoch := v.epoch, release := v.release.dropLast }
  have hf : front.release ≠ [] := by
    obtain ⟨_, _, hd, _⟩ := upperBound_eq_ok_iff.1 h
    simp [front, hd]
  have hlow : (Version.compare front.first v).isLE = true :=
    ((Version.matchesPrefix_iff_between hf hv).1 (Version.matchesPrefix_dropLast v)).1
  rw [Comparator.holds, Bool.and_eq_true, Version.matchesPrefix_iff_between hf hc, next_dropLast h]
  refine and_congr_right fun hge => and_iff_right ?_
  exact Std.TransCmp.isLE_trans hlow (Std.OrientedCmp.isGE_iff_isLE.1 hge)

end

/-- **Prefixes are intervals.** `==V.*` contains the versions from `V.dev0` on and before the
`.dev0` of the release whose last number is greater by one; of `V` its epoch and release alone
count. `~=V` contains those from `V` on and before the `.dev0` of its upper bound, which lies
above `V`. -/
theorem prefixes_are_intervals {candidate : String} {c : Version}
    (hc : Version.parse candidate = .ok c) :
    (∀ text v, Version.parse text = .ok v →
      ∃ b, contains ⟨.equal, text, true⟩ candidate = .ok b ∧
        (b = true ↔ (Version.compare v.first c).isLE = true ∧
          Version.compare c v.next.first = .lt)) ∧
    ∀ text s, parse text = .ok s → s.operator = .compatible →
      ∃ v up b, Version.parse s.version = .ok v ∧ upperBound v none = .ok up ∧
        s.contains candidate = .ok b ∧
        (b = true ↔ (Version.compare c v).isGE = true ∧
          Version.compare c (Version.first { epoch := v.epoch, release := up }) = .lt) ∧
        Version.compare v { epoch := v.epoch, release := up } = .lt := by
  have hcr := (Version.parse_wellFormed hc).release_ne_nil
  constructor
  · intro text v hv
    have hs : Targets ⟨.equal, text, true⟩ v := ⟨hv, fun _ => .inl rfl, fun h => by cases h⟩
    have hvr := (Version.parse_wellFormed hv).release_ne_nil
    refine ⟨_, contains_of_targets hs (by simp) hc, ?_⟩
    exact Version.matchesPrefix_iff_between hvr hcr
  · intro text s hs hop
    obtain ⟨v, ht⟩ := parse_targets hs (by simp [hop])
    obtain ⟨up, hup⟩ := exists_upperBound (ht.compatible hop) none
    have hvr := (Version.parse_wellFormed ht.version).release_ne_nil
    refine ⟨v, up, _, ht.version, hup, contains_of_targets ht (by simp [hop]) hc, ?_,
      lt_upperBound hvr hup⟩
    rw [hop]
    exact holds_compatible_iff hup hvr hcr s.wildcard

/-- A pre-release of the upper bound lies below it and not below its `.dev0`. -/
theorem prefixes_are_intervals_of_candidate :
    contains ⟨.equal, "1.5", true⟩ "1.5rc1" = .ok true ∧
      parse "~=1.4.2" = .ok ⟨.compatible, "1.4.2", false⟩ ∧
      contains ⟨.compatible, "1.4.2", false⟩ "1.5rc1" = .ok false := by
  have hc : Version.parse "1.5rc1" = .ok { release := [1, 5], pre := some ⟨.candidate, 1⟩ } := by
    cbv
  have hv : Version.parse "1.4.2" = .ok { release := [1, 4, 2] } := by cbv
  have hs : parse "~=1.4.2" = .ok ⟨.compatible, "1.4.2", false⟩ := by cbv
  obtain ⟨matching, compatible⟩ := prefixes_are_intervals hc
  obtain ⟨b, hb, hmatch⟩ := matching "1.5" { release := [1, 5] } (by cbv)
  obtain ⟨v, up, b', hv', hup, hb', hcomp, _⟩ := compatible _ _ hs rfl
  cases hv.symm.trans hv'
  cases hup.symm.trans (by cbv : _ = Except.ok [1, 5])
  have hin : b = true := hmatch.2 ⟨by decide, by decide⟩
  have hout : b' = false := Bool.eq_false_iff.2 fun h => absurd (hcomp.1 h).2 (by decide)
  subst hin hout
  exact ⟨hb, hs, hb'⟩

end Specifier

end DepClause
