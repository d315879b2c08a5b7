import Mathlib.Data.List.ModifyLast
import DepClause.Proofs.Version.Keys
import DepClause.Proofs.Version.Release
import DepClause.Proofs.Specifier.Valid
import DepClause.Specifier.Containment

/-!
# The upper bound of a compatible version

The versions that match a prefix lie, by epoch and release, between the prefix and the next release.
`~=V` asks for a version from `V` on that matches the release of `V` but for its last number. Such a
version lies below the upper bound. Of the others from `V` on, only those with the release of the
bound itself lie below it: its pre-releases.
-/

namespace DepClause.Version

/-! ## Prefixes of releases -/

theorem hasPrefix_cons (cs : List Nat) (n : Nat) (ns : List Nat) :
    hasPrefix cs (n :: ns) = (cs.headD 0 == n && hasPrefix cs.tail ns) := by
  cases cs with
  | nil => simp [hasPrefix, Bool.beq_comm]
  | cons c cs => rfl

@[simp] theorem hasPrefix_nil (cs : List Nat) : hasPrefix cs [] = true := by
  cases cs <;> rfl

/-- Zeros behind a release are found there whether they are written or not. -/
theorem hasPrefix_congr {cs ds : List Nat} (h : comparePadded cs ds = .eq) (ns : List Nat) :
    hasPrefix cs ns = hasPrefix ds ns := by
  induction ns generalizing cs ds with
  | nil => rw [hasPrefix_nil, hasPrefix_nil]
  | cons n ns ih =>
    rw [comparePadded_heads, Ordering.then_eq_eq, Nat.compare_eq_eq] at h
    rw [hasPrefix_cons, hasPrefix_cons, h.1, ih h.2]

theorem hasPrefix_of_prefix {cs ns : List Nat} (h : ns <+: cs) : hasPrefix cs ns = true := by
  obtain ⟨rest, rfl⟩ := h
  induction ns with
  | nil => exact hasPrefix_nil _
  | cons n ns ih => simp [hasPrefix, ih]

theorem comparePadded_nil_ne_lt (cs : List Nat) : comparePadded cs [] ≠ .lt := by
  induction cs with
  | nil => simp [comparePadded]
  | cons c cs ih =>
    rw [comparePadded]
    intro h
    rcases Ordering.then_eq_lt.1 h with h | ⟨_, h⟩
    · exact Nat.not_lt_zero c (Nat.compare_eq_lt.1 h)
    · exact ih h

theorem comparePadded_ne_lt_of_hasPrefix {cs ns : List Nat} (h : hasPrefix cs ns = true) :
    comparePadded cs ns ≠ .lt := by
  induction ns generalizing cs with
  | nil => exact comparePadded_nil_ne_lt cs
  | cons n ns ih =>
    rw [hasPrefix_cons, Bool.and_eq_true, beq_iff_eq] at h
    rw [comparePadded_heads, List.headD_cons, Nat.compare_eq_eq.2 h.1, Ordering.eq_then]
    exact ih h.2

/-- A release that starts with `front` and `n` lies below every one that starts with `front` and a
greater number. -/
theorem comparePadded_bound_of_hasPrefix {cs front : List Nat} {n : Nat}
    (h : hasPrefix cs (front ++ [n]) = true) : comparePadded cs (front ++ [n + 1]) = .lt := by
  induction front generalizing cs with
  | nil =>
    rw [List.nil_append, hasPrefix_cons, Bool.and_eq_true, beq_iff_eq] at h
    have hlt : Ord.compare (cs.headD 0) (n + 1) = .lt := Nat.compare_eq_lt.2 (by omega)
    rw [comparePadded_heads]
    exact Ordering.then_eq_lt.2 (.inl hlt)
  | cons m front ih =>
    rw [List.cons_append, hasPrefix_cons, Bool.and_eq_true, beq_iff_eq] at h
    rw [comparePadded_heads]
    exact Ordering.then_eq_lt.2 (.inr ⟨Nat.compare_eq_eq.2 h.1, ih h.2⟩)

/-- From a release on and below its bound, every release starts with it. -/
theorem hasPrefix_of_bounds {cs front : List Nat} {n : Nat}
    (low : comparePadded cs (front ++ [n]) ≠ .lt)
    (high : comparePadded cs (front ++ [n + 1]) = .lt) : hasPrefix cs (front ++ [n]) = true := by
  induction front generalizing cs with
  | nil =>
    rw [List.nil_append, comparePadded_heads, List.headD_cons, ne_eq, Ordering.then_eq_lt,
      Nat.compare_eq_lt, not_or] at low
    rw [List.nil_append, comparePadded_heads, List.headD_cons, List.tail_cons, Ordering.then_eq_lt,
      Nat.compare_eq_lt] at high
    rw [List.nil_append, hasPrefix_cons, hasPrefix_nil, Bool.and_true, beq_iff_eq]
    rcases high with high | ⟨_, high⟩
    · omega
    · exact absurd high (comparePadded_nil_ne_lt cs.tail)
  | cons m front ih =>
    rw [List.cons_append, comparePadded_heads, List.headD_cons, List.tail_cons] at low high
    rw [List.cons_append, hasPrefix_cons, Bool.and_eq_true, beq_iff_eq]
    cases hm : Ord.compare (cs.headD 0) m with
    | lt => exact absurd (by rw [hm, Ordering.lt_then]) low
    | gt =>
      rw [hm, Ordering.gt_then] at high
      cases high
    | eq =>
      rw [hm, Ordering.eq_then] at low high
      exact ⟨Nat.compare_eq_eq.1 hm, ih low high⟩

/-! ## Versions by epoch and release -/

instance : Std.TransCmp comparePadded :=
  transCmp_of_keys (List.compareLex Ord.compare) (trimZeros 0) fun ms ns =>
    (compareLex_trimZeros ms ns).symm

/-- Versions by epoch and release alone, zeros behind a release not counting. -/
def compareBase (v w : Version) : Ordering :=
  (Ord.compare v.epoch w.epoch).then (comparePadded v.release w.release)

instance : Std.TransCmp compareBase :=
  have : Std.TransCmp fun v w : Version => comparePadded v.release w.release :=
    transCmp_of_keys _ release fun _ _ => rfl
  inferInstanceAs (Std.TransCmp (compareLex (compareOn epoch) fun v w : Version =>
    comparePadded v.release w.release))

/-- The lowest release above all that start with this one. -/
def next (v : Version) : Version := { v.base with release := v.release.modifyLast (· + 1) }

section
variable {v w : Version}

theorem compare_eq_base_then (hv : v.release ≠ []) (hw : w.release ≠ []) :
    compare v w = (compareBase v w).then ((comparePre v w).then ((comparePost v w).then
      ((compareDev v w).then (compareLocal v w)))) := by
  rw [compareBase, ← compareRelease_eq hv hw, Ordering.then_assoc]
  rfl

theorem compare_of_base_lt (hv : v.release ≠ []) (hw : w.release ≠ [])
    (h : compareBase v w = .lt) : compare v w = .lt := by
  rw [compare_eq_base_then hv hw, h, Ordering.lt_then]

theorem sameBase_iff (hv : v.release ≠ []) (hw : w.release ≠ []) :
    v.sameBase w = true ↔ compareBase v w = .eq := by
  have h : compare v.base w.base = (compareBase v w).then .eq :=
    compare_eq_base_then (v := v.base) (w := w.base) hv hw
  rw [sameBase, beq_iff_eq, h, Ordering.then_eq]

theorem sameBase_comm (v w : Version) : v.sameBase w = w.sameBase v := by
  rw [Bool.eq_iff_iff, sameBase, sameBase, beq_iff_eq, beq_iff_eq]
  exact Std.OrientedCmp.eq_comm

theorem matchesPrefix_iff {v front : Version} :
    v.matchesPrefix front = true ↔
      v.epoch = front.epoch ∧ hasPrefix v.release front.release = true := by
  rw [matchesPrefix, Bool.and_eq_true, beq_iff_eq]

/-- What matches a prefix is a matter of epoch and release. -/
theorem matchesPrefix_congr (h : compareBase v w = .eq) (front : Version) :
    v.matchesPrefix front = w.matchesPrefix front := by
  rw [compareBase, Ordering.then_eq_eq, Nat.compare_eq_eq] at h
  rw [matchesPrefix, matchesPrefix, h.1, hasPrefix_congr h.2]

theorem base_eq_of_compare (hv : v.release ≠ []) (hw : w.release ≠ []) (h : compare v w = .eq) :
    compareBase v w = .eq := by
  rw [compare_eq_base_then hv hw, Ordering.then_eq_eq] at h
  exact h.1

/-- A version matches the release in front of its last number. -/
theorem matchesPrefix_dropLast (v : Version) :
    v.matchesPrefix { epoch := v.epoch, release := v.release.dropLast } = true :=
  matchesPrefix_iff.2 ⟨rfl, hasPrefix_of_prefix (List.dropLast_prefix v.release)⟩

theorem next_concat (e n : Nat) (front : List Nat) :
    ({ epoch := e, release := front ++ [n] } : Version).next =
      { epoch := e, release := front ++ [n + 1] } := by
  simp only [next, base, List.modifyLast_concat]

/-- Matching a prefix asks nothing of the other parts: epochs and releases decide. -/
theorem matchesPrefix_iff_base (hv : v.release ≠ []) :
    w.matchesPrefix v = true ↔ (compareBase v w).isLE = true ∧ compareBase w v.next = .lt := by
  obtain ⟨front, n, hr⟩ := (List.eq_nil_or_concat' v.release).resolve_left hv
  have hnext : v.next.release = front ++ [n + 1] := by
    rw [next, hr, List.modifyLast_concat]
  have hepoch : v.next.epoch = v.epoch := rfl
  rw [← Std.OrientedCmp.isGE_iff_isLE, Ordering.isGE_iff_ne_lt, matchesPrefix_iff, compareBase,
    compareBase, hepoch, hnext, hr]
  constructor
  · rintro ⟨he, hpre⟩
    rw [Nat.compare_eq_eq.2 he, Ordering.eq_then, Ordering.eq_then]
    exact ⟨comparePadded_ne_lt_of_hasPrefix hpre, comparePadded_bound_of_hasPrefix hpre⟩
  · rintro ⟨low, high⟩
    cases he : Ord.compare w.epoch v.epoch with
    | lt => exact absurd (by rw [he, Ordering.lt_then]) low
    | gt =>
      rw [he, Ordering.gt_then] at high
      cases high
    | eq =>
      rw [he, Ordering.eq_then] at low high
      exact ⟨Nat.compare_eq_eq.1 he, hasPrefix_of_bounds low high⟩

end

/-! ## Versions between a version and its bound -/

section
variable {c v : Version} {front : List Nat} {n : Nat}

/-- **Compatible versions lie below the bound.** -/
theorem compare_bound_of_matchesPrefix (hc : c.release ≠ [])
    (hm : c.matchesPrefix { epoch := v.epoch, release := front ++ [n] } = true) :
    compare c { epoch := v.epoch, release := front ++ [n + 1] } = .lt := by
  refine compare_of_base_lt hc (by simp) ?_
  rw [← next_concat]
  exact ((matchesPrefix_iff_base (by simp)).1 hm).2

end

end DepClause.Version
