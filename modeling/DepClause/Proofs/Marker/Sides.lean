import DepClause.Proofs.Marker.Finality
import DepClause.Proofs.Specifier.Compatible

/-!
# A literal on the left

In `"3.4" < python_version` the literal stands on the left. Where the target machine answers for the
variable, this is the comparison with the sides exchanged, `python_version > "3.4"`. Where the
variable has a value, the literal is compared with the value instead, and operators do not treat
their two sides alike: `<` leaves out pre-releases on its left and `>` post-releases and local
versions, `<=` and `>=` look at the public version of their left side, and `==` takes only its right
side for a prefix. So the two ways of writing a comparison agree just where none of this counts.
-/

namespace DepClause

/-! ## Versions -/

namespace Version

/-- Two versions of one release, the lower one first, of which only one of `<` and `>` says so: `<`
leaves out a pre-release in front of a version that is none, `>` a local version, and a post-release
behind a version that is none. -/
structure OneSided (v w : Version) : Prop where
  base : v.sameBase w = true
  below : compare v w = .lt
  excluded : (w.isPreRelease = false ∧ v.isPreRelease = true) ↔
    ¬(w.isLocal = true ∨ (v.isPostRelease = false ∧ w.isPostRelease = true))

end Version

namespace Comparator

/-- The operators that ask for an order. -/
def orders : List Comparator := [.less, .atMost, .greater, .atLeast]

variable {v w : Version}

/-- Where the operator with its two sides exchanged does not say the same of two versions. -/
def Lopsided (op : Comparator) (v w : Version) : Prop :=
  match op with
  | .less => v.OneSided w
  | .greater => w.OneSided v
  | .atMost => v.isLocal = true ∧ Version.compare v.withoutLocal w.withoutLocal = .eq
  | .atLeast => w.isLocal = true ∧ Version.compare w.withoutLocal v.withoutLocal = .eq
  | _ => False

theorem less_holds_iff : less.holds false v w = true ↔
    Version.compare v w = .lt ∧
      ¬(v.sameBase w = true ∧ w.isPreRelease = false ∧ v.isPreRelease = true) := by
  simp only [holds]
  grind

theorem greater_holds_iff : greater.holds false w v = true ↔
    Version.compare v w = .lt ∧ ¬(v.sameBase w = true ∧
      (w.isLocal = true ∨ (v.isPostRelease = false ∧ w.isPostRelease = true))) := by
  have swap : Version.compare w v = .gt ↔ Version.compare v w = .lt := Std.OrientedCmp.gt_iff_lt
  simp only [holds, Version.sameBase_comm w v]
  grind

theorem less_eq_greater_iff :
    less.holds false v w = greater.holds false w v ↔ ¬v.OneSided w := by
  have parts : v.OneSided w ↔ v.sameBase w = true ∧ Version.compare v w = .lt ∧
      ((w.isPreRelease = false ∧ v.isPreRelease = true) ↔
        ¬(w.isLocal = true ∨ (v.isPostRelease = false ∧ w.isPostRelease = true))) :=
    ⟨fun h => ⟨h.base, h.below, h.excluded⟩, fun ⟨hb, hl, he⟩ => ⟨hb, hl, he⟩⟩
  rw [Bool.eq_iff_iff, less_holds_iff, greater_holds_iff, parts]
  grind

theorem atMost_holds_eq : atMost.holds false v w =
    (Version.compare v.withoutLocal w.withoutLocal).isLE := by
  have twice : v.withoutLocal.withoutLocal = v.withoutLocal := rfl
  rw [holds, Version.compare_eq_then, Version.compareLocal_withoutLocal, twice]
  cases Version.compare v.withoutLocal w.withoutLocal <;> cases w.isLocal <;> rfl

theorem atLeast_holds_eq : atLeast.holds false w v =
    ((Version.compare v.withoutLocal w.withoutLocal).then
      (if v.isLocal then .gt else .eq)).isLE := by
  have twice : w.withoutLocal.withoutLocal = w.withoutLocal := rfl
  have swap : (Version.compare w.withoutLocal v).isGE =
      (Version.compare v w.withoutLocal).isLE := by
    rw [Bool.eq_iff_iff]
    exact Std.OrientedCmp.isGE_iff_isLE
  rw [holds, swap, Version.compare_eq_then, Version.compareLocal_right_public, twice]

theorem atMost_eq_atLeast_iff : atMost.holds false v w = atLeast.holds false w v ↔
    ¬(v.isLocal = true ∧ Version.compare v.withoutLocal w.withoutLocal = .eq) := by
  rw [atMost_holds_eq, atLeast_holds_eq]
  cases Version.compare v.withoutLocal w.withoutLocal <;> cases v.isLocal <;> simp

/-- Exchanging the sides of an order keeps what it says, but where it is lopsided. -/
theorem holds_swapped {op mirror : Comparator} (h : op.swapped? = some mirror)
    (hop : op ∈ orders) (v w : Version) :
    op.holds false v w = mirror.holds false w v ↔ ¬op.Lopsided v w := by
  cases op with
  | less =>
    cases h
    exact less_eq_greater_iff
  | atMost =>
    cases h
    exact atMost_eq_atLeast_iff
  | greater =>
    cases h
    rw [eq_comm]
    exact less_eq_greater_iff
  | atLeast =>
    cases h
    rw [eq_comm]
    exact atMost_eq_atLeast_iff
  | _ => simp [orders] at hop

/-- Releases alone are compared alike from both sides. -/
theorem not_lopsided_of_releases
    (h : ∀ u ∈ [v, w], u.isPreRelease = false ∧ u.isPostRelease = false ∧ u.isLocal = false)
    (op : Comparator) : ¬op.Lopsided v w := by
  obtain ⟨vpre, vpost, vlocal⟩ := h v (by simp)
  obtain ⟨wpre, wpost, wlocal⟩ := h w (by simp)
  intro lopsided
  cases op with
  | less =>
    have := lopsided.excluded
    simp [vpre, wpost, wlocal] at this
  | greater =>
    have := lopsided.excluded
    simp [wpre, vpost, vlocal] at this
  | atMost => simp [Lopsided, vlocal] at lopsided
  | atLeast => simp [Lopsided, wlocal] at lopsided
  | _ => exact lopsided

end Comparator

/-! ## Texts -/

namespace Comparison

/-- The left text is a version, and the right one a prefix that it matches. -/
def MatchesWritten (left right : String) : Prop :=
  ∃ front v w, right = front ++ ".*" ∧ Version.parse left = .ok v ∧ Version.parse front = .ok w ∧
    v.matchesPrefix w = true

variable {left right : String}

theorem MatchesWritten.left_is_version (h : MatchesWritten left right) :
    ∃ v, Version.parse left = .ok v := by
  obtain ⟨_, v, _, _, hv, _⟩ := h
  exact ⟨v, hv⟩

theorem MatchesWritten.right_not_version (h : MatchesWritten left right) :
    ¬∃ v, Version.parse right = .ok v := by
  obtain ⟨front, _, _, rfl, _⟩ := h
  rintro ⟨u, hu⟩
  exact Version.star_not_mem_of_parse hu (by simp)

theorem matchesWritten_iff {front : String} {v w : Version} (hv : Version.parse left = .ok v)
    (hw : Version.parse front = .ok w) :
    MatchesWritten left (front ++ ".*") ↔ v.matchesPrefix w = true := by
  constructor
  · rintro ⟨front', v', w', text, hv', hw', matching⟩
    obtain rfl : front = front' := (String.append_left_inj ".*").1 text
    cases hv.symm.trans hv'
    cases hw.symm.trans hw'
    exact matching
  · intro matching
    exact ⟨front, v, w, rfl, hv, hw, matching⟩

/-- Equality of texts holds for one text and for a version with a prefix that it matches. -/
theorem textsEqual_iff (left right : String) : ∃ b, textsEqual left right = .ok b ∧
    (b = true ↔ left = right ∨ MatchesWritten left right) := by
  have plain (h : ¬MatchesWritten left right) :
      (left == right) = true ↔ left = right ∨ MatchesWritten left right := by
    rw [beq_iff_eq]
    exact (or_iff_left h).symm
  unfold textsEqual
  cases hs : Specifier.stripWildcard? right.toList with
  | none =>
    refine ⟨_, rfl, plain ?_⟩
    rintro ⟨front, _, _, rfl, _⟩
    have found : Specifier.stripWildcard? (front ++ ".*").toList = some front.toList :=
      Specifier.stripWildcard?_eq_some_iff.2 String.toList_append
    rw [found] at hs
    cases hs
  | some cs =>
    obtain rfl : right = String.ofList cs ++ ".*" := by
      rw [← String.toList_inj, Specifier.stripWildcard?_eq_some_iff.1 hs]
      simp
    dsimp only
    split
    · next versions =>
      rw [Bool.and_eq_true] at versions
      obtain ⟨v, hv⟩ := Version.exists_parse versions.1
      obtain ⟨w, hw⟩ := Version.exists_parse versions.2
      refine ⟨_, Specifier.contains_of_targets (.of_wildcard hw) (by simp) hv, ?_⟩
      rw [matchesWritten_iff hv hw, or_iff_right]
      · rfl
      · -- the left text is a version and has no star in it
        rintro rfl
        exact Version.star_not_mem_of_parse hv (by simp)
    · next versions =>
      refine ⟨_, rfl, plain ?_⟩
      rintro ⟨front, v, w, text, hv, hw, _⟩
      obtain rfl : front = String.ofList cs := (String.append_left_inj ".*").1 text.symm
      rw [Version.isVersion_of_parse hv, Version.isVersion_of_parse hw] at versions
      exact versions rfl

/-- Where an operator and the one for exchanged sides do not say the same of two texts. -/
def SideCounts (op : Comparator) (left right : String) : Prop :=
  match op with
  | .equal | .notEqual => MatchesWritten left right ∨ MatchesWritten right left
  | op => ∃ v w, Version.parse left = .ok v ∧ Version.parse right = .ok w ∧ op.Lopsided v w

/-- Releases alone may change sides. -/
theorem not_sideCounts_of_releases {v w : Version} (hv : Version.parse left = .ok v)
    (hw : Version.parse right = .ok w)
    (h : ∀ u ∈ [v, w], u.isPreRelease = false ∧ u.isPostRelease = false ∧ u.isLocal = false)
    (op : Comparator) : ¬SideCounts op left right := by
  have ordered : ¬∃ v w, Version.parse left = .ok v ∧ Version.parse right = .ok w ∧
      op.Lopsided v w := by
    rintro ⟨v', w', hv', hw', lopsided⟩
    cases hv.symm.trans hv'
    cases hw.symm.trans hw'
    exact Comparator.not_lopsided_of_releases h op lopsided
  have equal : ¬(MatchesWritten left right ∨ MatchesWritten right left) := by
    rintro (h | h)
    · exact h.right_not_version ⟨w, hw⟩
    · exact h.right_not_version ⟨v, hv⟩
  cases op with
  | equal | notEqual => exact equal
  | _ => exact ordered

/-- What an equality of texts says depends on the side just if one is a prefix that the other
matches. -/
theorem textsEqual_swapped (left right : String) : ∃ b b', textsEqual left right = .ok b ∧
    textsEqual right left = .ok b' ∧
      (b = b' ↔ ¬(MatchesWritten left right ∨ MatchesWritten right left)) := by
  obtain ⟨b, hb, say⟩ := textsEqual_iff left right
  obtain ⟨b', hb', say'⟩ := textsEqual_iff right left
  refine ⟨b, b', hb, hb', ?_⟩
  have apart {x y : String} (h : MatchesWritten x y) : x ≠ y ∧ ¬MatchesWritten y x := by
    constructor
    · rintro rfl
      exact h.right_not_version h.left_is_version
    · intro h'
      exact h.right_not_version h'.left_is_version
  rw [Bool.eq_iff_iff, say, say', eq_comm (a := right)]
  constructor
  · -- the side that matches says true, so the other one would be equal or match back
    rintro same (h | h)
    · rcases same.1 (.inr h) with he | h'
      · exact (apart h).1 he
      · exact (apart h).2 h'
    · rcases same.2 (.inr h) with he | h'
      · exact (apart h).1 he.symm
      · exact (apart h).2 h'
  · intro neither
    rw [not_or] at neither
    rw [or_iff_left neither.1, or_iff_left neither.2]

theorem textsOrdered_of_versions {op : Comparator} (hop : op ∈ Comparator.orders) {v w : Version}
    (hv : Version.parse left = .ok v) (hw : Version.parse right = .ok w) :
    textsOrdered op left right = .ok (op.holds false v w) := by
  have compared : op ≠ .compatible ∧ op ≠ .identical := by
    constructor <;> rintro rfl <;> simp [Comparator.orders] at hop
  have versions : (Version.isVersion left && Version.isVersion right) = true := by
    rw [Version.isVersion_of_parse hv, Version.isVersion_of_parse hw, Bool.true_and]
  rw [← Specifier.contains_of_targets (.of_whole hw compared.1) compared.2 hv]
  unfold textsOrdered
  rw [if_pos versions, if_neg compared.1]

/-- Texts that are no versions are ordered by their units, whatever the sides are. -/
theorem textsOrdered_of_texts {op mirror : Comparator} (h : op.swapped? = some mirror)
    (hop : op ∈ Comparator.orders)
    (hv : ¬(Version.isVersion left = true ∧ Version.isVersion right = true)) :
    ∃ b, textsOrdered op left right = .ok b ∧ textsOrdered mirror right left = .ok b := by
  have units : Text.compareUnits right left = (Text.compareUnits left right).swap :=
    Std.OrientedOrd.eq_swap
  have here : (Version.isVersion left && Version.isVersion right) = false := by simpa using hv
  have there : (Version.isVersion right && Version.isVersion left) = false := by
    rw [Bool.and_comm, here]
  unfold textsOrdered
  rw [here, there, units]
  cases op with
  | less | atMost | greater | atLeast =>
    cases h
    refine ⟨_, rfl, congrArg Except.ok ?_⟩
    cases Text.compareUnits left right <;> rfl
  | _ => simp [Comparator.orders] at hop

theorem textsOrdered_swapped {op mirror : Comparator} (h : op.swapped? = some mirror)
    (hop : op ∈ Comparator.orders) (left right : String) :
    ∃ b b', textsOrdered op left right = .ok b ∧ textsOrdered mirror right left = .ok b' ∧
      (b = b' ↔ ¬∃ v w, Version.parse left = .ok v ∧ Version.parse right = .ok w ∧
        op.Lopsided v w) := by
  have back : mirror ∈ Comparator.orders := by
    cases op <;> cases h <;> simp_all [Comparator.orders]
  by_cases versions : Version.isVersion left = true ∧ Version.isVersion right = true
  · obtain ⟨v, hv⟩ := Version.exists_parse versions.1
    obtain ⟨w, hw⟩ := Version.exists_parse versions.2
    refine ⟨_, _, textsOrdered_of_versions hop hv hw, textsOrdered_of_versions back hw hv, ?_⟩
    rw [Comparator.holds_swapped h hop]
    apply not_congr
    constructor
    · intro lopsided
      exact ⟨v, w, hv, hw, lopsided⟩
    · rintro ⟨v', w', hv', hw', lopsided⟩
      cases hv.symm.trans hv'
      cases hw.symm.trans hw'
      exact lopsided
  · obtain ⟨b, hb, hb'⟩ := textsOrdered_of_texts h hop versions
    refine ⟨b, b, hb, hb', ?_⟩
    simp only [true_iff]
    rintro ⟨v, w, hv, hw, -⟩
    exact versions ⟨Version.isVersion_of_parse hv, Version.isVersion_of_parse hw⟩

/-- Known texts: whether the sides may be exchanged. -/
theorem textsMeet_swapped {op mirror : Comparator} (h : op.swapped? = some mirror)
    (left right : String) : ∃ b b', textsMeet left (.compare op) right = .ok b ∧
      textsMeet right (.compare mirror) left = .ok b' ∧ (b = b' ↔ ¬SideCounts op left right) := by
  cases op with
  | compatible => cases h
  | identical =>
    cases h
    refine ⟨left == right, right == left, rfl, rfl, ?_⟩
    simp [Bool.beq_comm, SideCounts, Comparator.Lopsided]
  | equal =>
    cases h
    exact textsEqual_swapped left right
  | notEqual =>
    cases h
    obtain ⟨b, b', hb, hb', same⟩ := textsEqual_swapped left right
    refine ⟨!b, !b', ?_, ?_, ?_⟩
    · simp [textsMeet, hb, Except.map]
    · simp [textsMeet, hb', Except.map]
    · rw [Bool.not_inj_iff]
      exact same
  | less | atMost | greater | atLeast =>
    cases h
    exact textsOrdered_swapped rfl (by decide) left right

/-! ## Capabilities -/

/-- Of a comparison with a name, the literal alone counts. The rest of it is named by failures. -/
theorem onEquality_congr {c d : Comparison} (h : c.literal = d.literal) (op : MarkerOperator)
    (template parameter : String) : (c.onEquality op template parameter).toOption =
      (d.onEquality op template parameter).toOption := by
  cases op with
  | isIn | notIn => simp only [onEquality, h]
  | compare op =>
    cases op with
    | equal | identical | notEqual => simp only [onEquality, h]
    | _ => rfl

theorem onOrdered_congr {c d : Comparison} (h : c.literal = d.literal) {op : Comparator}
    (hop : op ≠ .compatible) (name : String) :
    c.onOrdered (.compare op) name = d.onOrdered (.compare op) name := by
  cases op with
  | compatible => exact absurd rfl hop
  | _ => simp only [onOrdered, h]

/-- The target machine is asked the same either way. -/
theorem onCapability_swapped {op mirror : Comparator} (h : op.swapped? = some mirror)
    (name literal : String) (capability : Capability) :
    (onCapability ⟨name, .compare op, literal, true⟩ capability).toOption =
      (onCapability ⟨name, .compare mirror, literal, false⟩ capability).toOption := by
  have exchanged : (MarkerOperator.compare op).swapped? = some (.compare mirror) := by
    rw [MarkerOperator.swapped?, h]
    rfl
  have compared : mirror ≠ .compatible := by
    cases op <;> cases h <;> simp
  cases capability with
  | equality template parameter =>
    simp only [onCapability, if_true, exchanged, Bool.false_eq_true, if_false]
    apply onEquality_congr
    rfl
  | ordered capabilityName =>
    simp only [onCapability, if_true, exchanged, Bool.false_eq_true, if_false]
    rw [onOrdered_congr _ compared]
    rfl

/-- **When the sides may be exchanged.** A comparison with the literal on its left and the one with
the operator for exchanged sides mean the same to the target machine, or fail both. With a known
value neither fails, and they agree just where `SideCounts` does not hold of the two texts. -/
theorem sides_agree_iff {op mirror : Comparator} (h : op.swapped? = some mirror)
    {name : String} (hx : name ≠ "extra") (literal : String) (scope : Scope) :
    let before : Comparison := ⟨name, .compare op, literal, true⟩
    let after : Comparison := ⟨name, .compare mirror, literal, false⟩
    (scope.environment.get? name = none →
      (before.evaluate scope).toOption = (after.evaluate scope).toOption) ∧
    ∀ value, scope.environment.get? name = some value →
      ∃ b b', before.evaluate scope = .ok (.known b) ∧ after.evaluate scope = .ok (.known b') ∧
        (b = b' ↔ ¬SideCounts op literal value) := by
  intro before after
  constructor
  · intro unbound
    cases hc : scope.capabilities.get? name with
    | none =>
      rw [evaluate_unknown (c := before) hx unbound hc, evaluate_unknown (c := after) hx unbound hc]
    | some capability =>
      rw [evaluate_capability (c := before) hx unbound hc,
        evaluate_capability (c := after) hx unbound hc]
      exact onCapability_swapped h name literal capability
  · intro value bound
    obtain ⟨b, b', hb, hb', same⟩ := textsMeet_swapped h literal value
    refine ⟨b, b', ?_, ?_, same⟩
    · rw [evaluate_bound (c := before) hx bound, if_pos rfl, hb]
      rfl
    · rw [evaluate_bound (c := after) hx bound, if_neg Bool.false_ne_true, hb']
      rfl

/-- A pre-release below a local version: each way of comparing leaves one of them out. -/
theorem sides_agree_iff_of_local :
    let scope : Scope := ⟨[("implementation_version", "1.0+abc")], [],
      [("python_version", .ordered "python(abi)")]⟩
    (evaluate ⟨"python_version", .compare .less, "3.4", true⟩ scope).toOption =
        (evaluate ⟨"python_version", .compare .greater, "3.4", false⟩ scope).toOption ∧
      evaluate ⟨"implementation_version", .compare .less, "1.0rc1", true⟩ scope =
        .ok (.known false) ∧
      evaluate ⟨"implementation_version", .compare .greater, "1.0rc1", false⟩ scope =
        .ok (.known false) ∧
      ¬SideCounts .less "1.0rc1" "1.0+abc" := by
  intro scope
  have before : evaluate ⟨"implementation_version", .compare .less, "1.0rc1", true⟩ scope =
      .ok (.known false) := by cbv
  have after : evaluate ⟨"implementation_version", .compare .greater, "1.0rc1", false⟩ scope =
      .ok (.known false) := by cbv
  obtain ⟨unbound, -⟩ := @sides_agree_iff .less .greater rfl "python_version" (by decide)
    "3.4" scope
  obtain ⟨-, bound⟩ := @sides_agree_iff .less .greater rfl "implementation_version"
    (by decide) "1.0rc1" scope
  obtain ⟨b, b', hb, hb', same⟩ := bound "1.0+abc" (by decide)
  cases before.symm.trans hb
  cases after.symm.trans hb'
  exact ⟨unbound (by decide), before, after, same.1 rfl⟩

/-- A post-release is above its release only where it stands on the right, and a prefix is one only
there. -/
theorem sides_disagree :
    let scope : Scope :=
      ⟨[("implementation_version", "1.0.post1"), ("python_full_version", "3.8.1")], [], []⟩
    evaluate ⟨"implementation_version", .compare .less, "1.0", true⟩ scope = .ok (.known true) ∧
      evaluate ⟨"implementation_version", .compare .greater, "1.0", false⟩ scope =
        .ok (.known false) ∧
      evaluate ⟨"python_full_version", .compare .equal, "3.8.*", true⟩ scope =
        .ok (.known false) ∧
      evaluate ⟨"python_full_version", .compare .equal, "3.8.*", false⟩ scope =
        .ok (.known true) := by
  refine ⟨?_, ?_, ?_, ?_⟩ <;> cbv

end Comparison

end DepClause
