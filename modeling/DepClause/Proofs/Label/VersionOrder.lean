import Mathlib
import DepClause.Proofs.Label.LocalParts

/-!
# Version order through labels

Two versions compare as their labels do. The one exception is a pair with one public version and two
local parts, of which one is mixed: labels cut a mixed part into runs, versions do not. Strict
encoding refuses mixed parts, so among its labels there is no exception.
-/

namespace DepClause.Version

open Label (runs compareRuns)

/-- Versions compare as public versions first. -/
theorem compare_eq_then (v w : Version) :
    compare v w = (compare v.withoutLocal w.withoutLocal).then (compareLocal v w) := by
  have hl : compareLocal v.withoutLocal w.withoutLocal = .eq := rfl
  simp only [compare, hl, Ordering.then_eq, Ordering.then_assoc]
  rfl

theorem compareTexts_label_eq_then {v w : Version} (hv : v.WellFormed) (hw : w.WellFormed) :
    Label.compareTexts v.label w.label = (compare v.withoutLocal w.withoutLocal).then
      (compareRuns v.localRuns w.localRuns) := by
  have hl : compareLocal v.withoutLocal w.withoutLocal = .eq := rfl
  have hr : compareRuns (runs v.labelBody) (runs w.labelBody) =
      (compareRelease v w).then (compareRuns v.markRuns w.markRuns) := by
    rw [runs_labelBody, runs_labelBody, compareRelease_eq hv.release_ne_nil hw.release_ne_nil,
      ← compareLex_labelRelease hv.release_ne_nil hw.release_ne_nil]
    exact Label.compareRuns_numbers _ _ (markRuns_opens v) (markRuns_opens w)
  rw [compareTexts_label hv hw, hr, compareRuns_markRuns]
  simp only [compare, hl, Ordering.then_eq, Ordering.then_assoc]
  rfl

/-- A version with a local part that mixes digits with letters. -/
def HasMixedPart (v : Version) : Prop :=
  ∃ ps, v.localParts = some ps ∧ ∃ p ∈ ps, p.Mixed

theorem compareRuns_localRuns {v w : Version} (hv : v.WellFormed) (hw : w.WellFormed)
    (h : v.isLocal = true → w.isLocal = true → ¬v.HasMixedPart ∧ ¬w.HasMixedPart) :
    compareRuns v.localRuns w.localRuns = compareLocal v w := by
  unfold localRuns compareLocal
  cases hvl : v.localParts with
  | none =>
    cases hwl : w.localParts with
    | none => rfl
    | some qs => rfl
  | some ps =>
    cases hwl : w.localParts with
    | none => rfl
    | some qs =>
      obtain ⟨hvm, hwm⟩ := h (by simp [isLocal, hvl]) (by simp [isLocal, hwl])
      have hpm : ∀ p ∈ ps, ¬p.Mixed := fun p hp hm => hvm ⟨ps, hvl, p, hp, hm⟩
      have hqm : ∀ q ∈ qs, ¬q.Mixed := fun q hq hm => hwm ⟨qs, hwl, q, hq, hm⟩
      have hps := hv.parts ps hvl
      have hqs := hw.parts qs hwl
      simp only
      rw [runs_localChars hps hpm, runs_localChars hqs hqm, ← compareRuns_map_run hps hqs]
      rfl

/-- Labels compare as versions, outside the one exception. -/
theorem compareTexts_label_eq {v w : Version} (hv : v.WellFormed) (hw : w.WellFormed)
    (h : compare v.withoutLocal w.withoutLocal = .eq → v.isLocal = true → w.isLocal = true →
      ¬v.HasMixedPart ∧ ¬w.HasMixedPart) :
    Label.compareTexts v.label w.label = compare v w := by
  rw [compareTexts_label_eq_then hv hw, compare_eq_then v w]
  cases hc : compare v.withoutLocal w.withoutLocal with
  | lt => rfl
  | eq => rw [compareRuns_localRuns hv hw (h hc)]
  | gt => rfl

theorem encodeLiteral_eq {strict : Bool} {text : String} {v : Version} (h : parse text = .ok v) :
    encodeLiteral strict text = encode strict text v := by
  rw [encodeLiteral, h]
  rfl

theorem encode_eq_ok {strict : Bool} {text l : String} {v : Version}
    (h : encode strict text v = .ok l) : v.label = l := by
  unfold encode at h
  split at h
  · cases h
  · exact Except.ok.inj h

/-- Strict encoding accepts just the versions without a mixed part. -/
theorem mixedPart?_eq_none_iff (v : Version) : v.mixedPart? = none ↔ ¬v.HasMixedPart := by
  unfold mixedPart? HasMixedPart
  cases v.localParts with
  | none => simp
  | some ps =>
    simp only [Option.getD_some, List.findSome?_eq_none_iff, Option.some.injEq, exists_eq_left',
      not_exists, not_and]
    refine forall₂_congr fun p _ => ?_
    cases p with
    | number n => simp [LocalPart.Mixed]
    | word w => simp [LocalPart.Mixed]

theorem encode_strict_eq_ok_iff {text l : String} {v : Version} :
    encode true text v = .ok l ↔ ¬v.HasMixedPart ∧ v.label = l := by
  rw [← mixedPart?_eq_none_iff, encode, if_pos rfl]
  cases v.mixedPart? with
  | none => simp
  | some part => simp

theorem encode_strict_error_iff {text : String} {v : Version} {failure : Failure} :
    encode true text v = .error failure ↔
      ∃ part, v.mixedPart? = some part ∧ failure = .mixedLocal text part := by
  rw [encode, if_pos rfl]
  cases v.mixedPart? with
  | none => simp
  | some part => simp [eq_comm]

/-- **Labels order versions.** Two literals compare as their labels do, unless their public versions
are equal and both have a local part, one of them mixed; and always if strict encoding accepts
both. -/
theorem labels_keep_order {s t : String} {v w : Version} (hs : parse s = .ok v)
    (ht : parse t = .ok w) :
    ∃ l m, encodeLiteral false s = .ok l ∧ encodeLiteral false t = .ok m ∧
      (¬(compare v.withoutLocal w.withoutLocal = .eq ∧ v.isLocal = true ∧ w.isLocal = true ∧
          (v.HasMixedPart ∨ w.HasMixedPart)) →
        Label.compareTexts l m = compare v w) ∧
      ∀ l' m', encodeLiteral true s = .ok l' → encodeLiteral true t = .ok m' →
        Label.compareTexts l' m' = compare v w := by
  have hv := parse_wellFormed hs
  have hw := parse_wellFormed ht
  refine ⟨v.label, w.label, encodeLiteral_eq hs, encodeLiteral_eq ht, fun h => ?_, ?_⟩
  · refine compareTexts_label_eq hv hw fun hp hvl hwl => ?_
    exact not_or.1 fun hm => h ⟨hp, hvl, hwl, hm⟩
  · intro l' m' hl hm
    rw [encodeLiteral_eq hs, encode_strict_eq_ok_iff] at hl
    rw [encodeLiteral_eq ht, encode_strict_eq_ok_iff] at hm
    rw [← hl.2, ← hm.2]
    exact compareTexts_label_eq hv hw fun _ _ _ => ⟨hl.1, hm.1⟩

theorem labels_keep_order_of_locals :
    parse "1!2.0.0RC1.post2.dev3+ab-7" = .ok
        { epoch := 1, release := [2, 0, 0], pre := some ⟨.candidate, 1⟩, post := some 2,
          dev := some 3, localParts := some [.word "ab", .number 7] } ∧
      parse "v1!2c1-2.dev3+ab.10" = .ok
        { epoch := 1, release := [2], pre := some ⟨.candidate, 1⟩, post := some 2,
          dev := some 3, localParts := some [.word "ab", .number 10] } ∧
      Label.compareTexts "1:2.0~rc1.post2~dev3^ab.7" "1:2.0~rc1.post2~dev3^ab.10" = .lt := by
  have hs : parse "1!2.0.0RC1.post2.dev3+ab-7" = .ok
      { epoch := 1, release := [2, 0, 0], pre := some ⟨.candidate, 1⟩, post := some 2,
        dev := some 3, localParts := some [.word "ab", .number 7] } := by cbv
  have ht : parse "v1!2c1-2.dev3+ab.10" = .ok
      { epoch := 1, release := [2], pre := some ⟨.candidate, 1⟩, post := some 2,
        dev := some 3, localParts := some [.word "ab", .number 10] } := by cbv
  obtain ⟨_, _, _, _, _, strict⟩ := labels_keep_order hs ht
  exact ⟨hs, ht, (strict _ _ (by cbv) (by cbv)).trans (by cbv)⟩

end DepClause.Version
