import Mathlib
import DepClause.Proofs.Label.RunOrder
import DepClause.Proofs.Label.VersionOrder
import DepClause.Proofs.Version.Equality
import DepClause.Proofs.Version.NormalForm

/-!
# Labels are canonical

Equal versions have one label, and versions with one label are equal, whatever their local parts
are. Equal versions differ in nothing but the zeros behind their releases, and a label keeps as many
of these as all of them. Back from a label, the epoch and the runs say which public version it is of;
what is left of the text then is the local part.
-/

namespace DepClause

/-- Local parts are read back from their text. -/
theorem parts_of_localChars {ps : List LocalPart} (hne : ps ≠ []) (h : ∀ p ∈ ps, p.WellFormed) :
    ((localChars ps).splitOnP Version.isSeparator).map Version.localPart = ps := by
  obtain ⟨l, chars, parts⟩ := exists_localRuns hne h
  rw [← chars, Version.splitOnP_chars, ← parts, List.map_map]
  simp [LocalRuns.parts, Function.comp_def, Version.localPart_chars]

namespace Version

/-- The label of a public version behind its epoch. -/
def labelPublic (v : Version) : List Char :=
  releaseChars (labelRelease v.release) ++ (v.labelPre ++ (v.labelPost ++ v.labelDev))

theorem labelBody_eq (v : Version) : v.labelBody = v.labelPublic ++ v.labelLocal := by
  simp only [labelBody, labelMarks, labelPublic, List.append_assoc]

section
variable {v w : Version}

/-! ## Equal versions -/

theorem labelRelease_eq_of_comparePadded (hv : v.release ≠ []) (hw : w.release ≠ [])
    (h : comparePadded v.release w.release = .eq) :
    labelRelease v.release = labelRelease w.release := by
  rw [← compareLex_labelRelease hv hw] at h
  exact Std.LawfulEqCmp.eq_of_compare h

/-- Equal public versions are written alike. -/
theorem labelPublic_eq (hv : v.WellFormed) (hw : w.WellFormed)
    (h : compare v.withoutLocal w.withoutLocal = .eq) :
    v.epoch = w.epoch ∧ v.labelPublic = w.labelPublic := by
  obtain ⟨epoch, release, pre, post, dev, _⟩ :=
    sameParts_of_compare hv.withoutLocal hw.withoutLocal h
  have hrelease : labelRelease v.release = labelRelease w.release :=
    labelRelease_eq_of_comparePadded hv.release_ne_nil hw.release_ne_nil release
  have hpre : v.pre = w.pre := pre
  have hpost : v.post = w.post := post
  have hdev : v.dev = w.dev := dev
  refine ⟨epoch, ?_⟩
  simp only [labelPublic, labelPre, labelPost, labelDev, hrelease, hpre, hpost, hdev]

/-! ## Equal labels -/

theorem localParts_eq_of_labelLocal (hv : v.WellFormed) (hw : w.WellFormed)
    (h : v.labelLocal = w.labelLocal) : v.localParts = w.localParts := by
  unfold labelLocal at h
  cases hps : v.localParts with
  | none =>
    cases hqs : w.localParts with
    | none => rfl
    | some qs => simp [hps, hqs] at h
  | some ps =>
    cases hqs : w.localParts with
    | none => simp [hps, hqs] at h
    | some qs =>
      simp only [hps, hqs, List.cons.injEq, true_and] at h
      have back := parts_of_localChars (hv.parts_ne_nil ps hps) (hv.parts ps hps)
      rw [h, parts_of_localChars (hw.parts_ne_nil qs hqs) (hw.parts qs hqs)] at back
      rw [back]

theorem label_eq_iff (hv : v.WellFormed) (hw : w.WellFormed) :
    v.label = w.label ↔ compare v w = .eq := by
  constructor
  · intro h
    have parts := splitEpoch_labelChars v
    rw [String.ofList_injective h, splitEpoch_labelChars w, Prod.mk.injEq] at parts
    obtain ⟨_, body⟩ := parts
    have same : Label.compareTexts v.label w.label = .eq := by
      have itself : compare v.withoutLocal v.withoutLocal = .eq := Std.ReflCmp.compare_self
      rw [← h, compareTexts_label_eq_then hv hv, itself]
      exact Std.ReflCmp.compare_self
    rw [compareTexts_label_eq_then hv hw, Ordering.then_eq_eq] at same
    obtain ⟨_, front⟩ := labelPublic_eq hv hw same.1
    rw [labelBody_eq, labelBody_eq, front] at body
    have locals := localParts_eq_of_labelLocal hv hw (List.append_cancel_left body).symm
    rw [compare_eq_then, same.1, Ordering.eq_then, compareLocal_eq, locals]
    exact Std.ReflCmp.compare_self
  · intro h
    rw [compare_eq_then, Ordering.then_eq_eq] at h
    obtain ⟨epoch, front⟩ := labelPublic_eq hv hw h.1
    have locals := localParts_eq_of_compareLocal hv hw h.2
    rw [label, label, labelChars_eq, labelChars_eq, labelBody_eq, labelBody_eq, front]
    simp only [labelEpoch, labelLocal, epoch, locals]

end

/-- **Labels are canonical.** Two literals have one label just if they write equal versions. -/
theorem labels_are_canonical {s t : String} {v w : Version} (hs : parse s = .ok v)
    (ht : parse t = .ok w) :
    ∃ l m, encodeLiteral false s = .ok l ∧ encodeLiteral false t = .ok m ∧
      (l = m ↔ compare v w = .eq) :=
  ⟨v.label, w.label, encodeLiteral_eq hs, encodeLiteral_eq ht,
    label_eq_iff (parse_wellFormed hs) (parse_wellFormed ht)⟩

/-- The zero in `a07` is kept, so it is another part than `a7`; the one in `01` is not. -/
theorem labels_are_canonical_of_mixed :
    parse "1!2.0.0-ALPHA+A07_01" = .ok
        { epoch := 1, release := [2, 0, 0], pre := some ⟨.alpha, 0⟩,
          localParts := some [.word "a07", .number 1] } ∧
      parse "v1!2a0+a07.1" = .ok
        { epoch := 1, release := [2], pre := some ⟨.alpha, 0⟩,
          localParts := some [.word "a07", .number 1] } ∧
      encodeLiteral false "1!2.0.0-ALPHA+A07_01" = encodeLiteral false "v1!2a0+a07.1" := by
  have hs : parse "1!2.0.0-ALPHA+A07_01" = .ok
      { epoch := 1, release := [2, 0, 0], pre := some ⟨.alpha, 0⟩,
        localParts := some [.word "a07", .number 1] } := by cbv
  have ht : parse "v1!2a0+a07.1" = .ok
      { epoch := 1, release := [2], pre := some ⟨.alpha, 0⟩,
        localParts := some [.word "a07", .number 1] } := by cbv
  obtain ⟨l, m, hl, hm, same⟩ := labels_are_canonical hs ht
  refine ⟨hs, ht, ?_⟩
  rw [hl, hm, same.2 (by cbv)]

end Version

end DepClause
