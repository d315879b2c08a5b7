import DepClause.Proofs.Specifier.Clauses
import DepClause.Proofs.Version.NormalForm

/-!
# Compatible versions as a lower bound and a prefix

`~=V` asks for what `>=V` and `==P.*` ask for, where `P` is `V` without its last number, except that
`>=` compares the public candidate and `~=` the whole one. The two part only where `V` is a local
version itself: the local versions from `V` on, of the same public version, are compatible with `V`
and do not meet `>=V`.
-/

namespace DepClause

namespace Version

/-- The local versions from a local version on, among those of its public version. -/
def LocalFrom (c v : Version) : Prop :=
  v.isLocal = true ∧ compare c.withoutLocal v.withoutLocal = .eq ∧ (compare c v).isGE = true

section
variable {c v : Version}

theorem compareLocal_withoutLocal (c v : Version) :
    compareLocal c.withoutLocal v = if v.isLocal then .lt else .eq := by
  unfold compareLocal isLocal
  cases v.localParts <;> rfl

theorem compareLocal_right_public (v w : Version) :
    compareLocal v w.withoutLocal = if v.isLocal then .gt else .eq := by
  unfold compareLocal isLocal
  cases v.localParts <;> rfl

/-- A version lies above a public one if its public version does. -/
theorem compareLocal_public_ne_lt (h : v.isLocal = false) : compareLocal c v ≠ .lt := by
  intro hlt
  unfold isLocal at h
  unfold compareLocal at hlt
  cases hv : v.localParts with
  | some ps => simp [hv] at h
  | none => cases hc : c.localParts <;> simp [hv, hc] at hlt

/-- Without its local part a candidate is at least `v` just where it was, but for `LocalFrom`. -/
theorem isGE_withoutLocal (h : ¬c.LocalFrom v) :
    (compare c.withoutLocal v).isGE = (compare c v).isGE := by
  rw [compare_eq_then c.withoutLocal v, compare_eq_then c v, compareLocal_withoutLocal]
  have twice : c.withoutLocal.withoutLocal = c.withoutLocal := rfl
  rw [twice]
  cases hp : compare c.withoutLocal v.withoutLocal with
  | lt => rfl
  | gt => rfl
  | eq =>
    rw [Ordering.eq_then, Ordering.eq_then]
    by_cases hl : v.isLocal = true
    · have below : (compare c v).isGE = false := by
        rw [Bool.eq_false_iff]
        intro hge
        exact h ⟨hl, hp, hge⟩
      rw [compare_eq_then, hp, Ordering.eq_then] at below
      rw [below, if_pos hl]
      rfl
    · have above := compareLocal_public_ne_lt (c := c) (Bool.eq_false_iff.2 hl)
      rw [if_neg hl, Ordering.isGE_iff_ne_lt.2 above]
      rfl

theorem LocalFrom.isGE_withoutLocal (h : c.LocalFrom v) :
    (compare c.withoutLocal v).isGE = false := by
  obtain ⟨hl, hp, _⟩ := h
  rw [compare_eq_then, compareLocal_withoutLocal, if_pos hl]
  have twice : c.withoutLocal.withoutLocal = c.withoutLocal := rfl
  rw [twice, hp]
  rfl

theorem LocalFrom.matchesFront (h : c.LocalFrom v) (hc : c.release ≠ []) (hv : v.release ≠ []) :
    c.matchesPrefix { epoch := v.epoch, release := v.release.dropLast } = true := by
  have base : compareBase c.withoutLocal v.withoutLocal = .eq :=
    base_eq_of_compare (v := c.withoutLocal) (w := v.withoutLocal) hc hv h.2.1
  have base : compareBase c v = .eq := base
  rw [matchesPrefix_congr base]
  exact matchesPrefix_dropLast v

end

end Version

namespace Specifier

theorem front_wellFormed {v : Version} (h : 2 ≤ v.release.length) :
    ({ epoch := v.epoch, release := v.release.dropLast } : Version).WellFormed where
  release_ne_nil hd := by
    have := congrArg List.length hd
    simp only [List.length_dropLast, List.length_nil] at this
    omega
  parts_ne_nil _ hp := by cases hp
  parts _ hp := by cases hp

/-- **A compatible version is one from `V` on that matches the front of `V`.** `~=V` contains what
both `>=V` and `==P.*` contain, where `P` is the epoch of `V` and its release without the last
number. Where a local version is named, the local versions from it on are contained as well; they do
not meet `>=V`, which looks at their public version. -/
theorem compatible_is_bound_and_prefix {text candidate : String} {s : Specifier} {c : Version}
    (hs : parse text = .ok s) (hop : s.operator = .compatible)
    (hc : Version.parse candidate = .ok c) :
    ∃ v front within above matching,
      Version.parse s.version = .ok v ∧
      front = { epoch := v.epoch, release := v.release.dropLast } ∧
      Version.parse front.render = .ok front ∧
      s.contains candidate = .ok within ∧
      contains ⟨.atLeast, s.version, false⟩ candidate = .ok above ∧
      (∀ t, Version.parse t = .ok front → contains ⟨.equal, t, true⟩ candidate = .ok matching) ∧
      (¬c.LocalFrom v → within = (above && matching)) ∧
      (c.LocalFrom v → within = true ∧ above = false) := by
  obtain ⟨v, target⟩ := parse_targets hs (by simp [hop])
  have hcr := (Version.parse_wellFormed hc).release_ne_nil
  have hvr := (Version.parse_wellFormed target.version).release_ne_nil
  let front : Version := { epoch := v.epoch, release := v.release.dropLast }
  have within : s.operator.holds s.wildcard c v =
      ((Version.compare c v).isGE && c.matchesPrefix front) := by
    rw [hop]
    rfl
  refine ⟨v, front, _, _, c.matchesPrefix front, target.version, rfl,
    Version.parse_render (front_wellFormed (target.compatible hop)),
    contains_of_targets target (by simp [hop]) hc,
    contains_of_targets (.of_whole target.version (by simp)) (by simp) hc,
    ?_, ?_, ?_⟩
  · intro t ht
    exact contains_of_targets (.of_wildcard ht) (by simp) hc
  · intro outside
    rw [within, ← Version.isGE_withoutLocal outside]
    rfl
  · intro inside
    rw [within]
    constructor
    · rw [inside.2.2, inside.matchesFront hcr hvr]
      rfl
    · exact inside.isGE_withoutLocal

/-- The local part of a candidate does not count where the version named is public. -/
theorem compatible_is_bound_and_prefix_of_public :
    parse "~=1.4.5a4" = .ok ⟨.compatible, "1.4.5a4", false⟩ ∧
      contains ⟨.atLeast, "1.4.5a4", false⟩ "1.4.5a4+local" = .ok true ∧
      contains ⟨.equal, "1.4", true⟩ "1.4.5a4+local" = .ok true ∧
      contains ⟨.compatible, "1.4.5a4", false⟩ "1.4.5a4+local" = .ok true := by
  have hs : parse "~=1.4.5a4" = .ok ⟨.compatible, "1.4.5a4", false⟩ := by cbv
  have hc : Version.parse "1.4.5a4+local" = .ok
      { release := [1, 4, 5], pre := some ⟨.alpha, 4⟩, localParts := some [.word "local"] } := by
    cbv
  have hv : Version.parse "1.4.5a4" =
      .ok { release := [1, 4, 5], pre := some ⟨.alpha, 4⟩ } := by cbv
  have low : contains ⟨.atLeast, "1.4.5a4", false⟩ "1.4.5a4+local" = .ok true := by cbv
  have same : contains ⟨.equal, "1.4", true⟩ "1.4.5a4+local" = .ok true := by cbv
  obtain ⟨v, front, within, above, matching, hv', rfl, _, hin, habove, hmatch, outside, _⟩ :=
    compatible_is_bound_and_prefix hs rfl hc
  cases hv.symm.trans hv'
  cases low.symm.trans habove
  cases same.symm.trans (hmatch "1.4" (by cbv))
  have plain : ¬Version.LocalFrom
      { release := [1, 4, 5], pre := some ⟨.alpha, 4⟩, localParts := some [.word "local"] }
      { release := [1, 4, 5], pre := some ⟨.alpha, 4⟩ } := by
    rintro ⟨h, _⟩
    cases h
  obtain rfl := outside plain
  exact ⟨hs, low, same, hin⟩

/-- A local version is compatible with itself and does not meet the bound that it makes. -/
theorem local_version_below_itself :
    parse "~=1.0+abc" = .ok ⟨.compatible, "1.0+abc", false⟩ ∧
      contains ⟨.compatible, "1.0+abc", false⟩ "1.0+abc" = .ok true ∧
      contains ⟨.equal, "1", true⟩ "1.0+abc" = .ok true ∧
      contains ⟨.atLeast, "1.0+abc", false⟩ "1.0+abc" = .ok false := by
  refine ⟨?_, ?_, ?_, ?_⟩ <;> cbv

end Specifier

end DepClause
