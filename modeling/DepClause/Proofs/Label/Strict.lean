import DepClause.Proofs.Label.RunOrder
import DepClause.Proofs.Label.VersionOrder
import DepClause.Proofs.Version.Keys
import DepClause.Proofs.Version.NormalForm

/-!
# Strict encoding

The label of a version with a mixed local part has the same runs as the label of another version, in
which each run is a part of its own. The two versions differ, their labels do not. So strict
encoding, which refuses mixed parts, refuses no version that all labels would leave in its place.
-/

namespace DepClause

open Label (runs compareRuns)

/-! ## The parts that runs spell -/

theorem LocalPart.of_lower {cs : List Char} (hne : cs ≠ []) (h : ∀ c ∈ cs, c.isLower = true) :
    (LocalPart.word (String.ofList cs)).WellFormed ∧
      ¬(LocalPart.word (String.ofList cs)).Mixed := by
  have not_digit : ∀ c ∈ cs, c.isDigit = false :=
    fun c hc => Text.not_isDigit_of_isAlpha (Text.isAlpha_of_isLower (h c hc))
  obtain ⟨c, hc⟩ := List.exists_mem_of_ne_nil cs hne
  refine ⟨⟨?_, c, ?_, not_digit c hc⟩, ?_⟩
  · intro d hd
    rw [String.toList_ofList] at hd
    exact .inr (h d hd)
  · rw [String.toList_ofList]
    exact hc
  · rintro ⟨d, hd, digit⟩
    rw [String.toList_ofList] at hd
    rw [not_digit d hd] at digit
    cases digit

/-- The characters of local parts and of what stands between them. -/
def IsLocalChar (c : Char) : Prop := c.isDigit = true ∨ c.isLower = true ∨ c = '.'

theorem isLocalChar_localChars {ps : List LocalPart} (hp : ∀ p ∈ ps, p.WellFormed) :
    ∀ c ∈ localChars ps, IsLocalChar c := by
  intro c hc
  rcases Text.mem_intercalate hc with rfl | ⟨l, hl, hc⟩
  · exact .inr (.inr rfl)
  · obtain ⟨p, hmem, rfl⟩ := List.mem_map.1 hl
    cases p with
    | number n => exact .inl (isDigit_of_mem_numeral hc)
    | word w =>
      rcases (hp _ hmem).1 c hc with h | h
      · exact .inl h
      · exact .inr (.inl h)

theorem mem_localChars {ps : List LocalPart} {p : LocalPart} (hp : p ∈ ps) {c : Char}
    (hc : c ∈ p.chars) : c ∈ localChars ps := by
  obtain ⟨q, qs, rfl⟩ := List.exists_cons_of_ne_nil (List.ne_nil_of_mem hp)
  rw [localChars, List.map_cons, intercalate_point]
  rcases List.mem_cons.1 hp with rfl | hp
  · exact List.mem_append_left _ hc
  · apply List.mem_append_right
    rw [List.mem_flatMap]
    exact ⟨p.chars, List.mem_map_of_mem hp, List.mem_cons_of_mem _ hc⟩

theorem LocalPart.Mixed.exists_digit {p : LocalPart} (h : p.Mixed) :
    ∃ c ∈ p.chars, c.isDigit = true := by
  cases p with
  | number n => cases h
  | word w => exact h

/-- Whatever runs a local text has, there are parts that have just these, none of them mixed. -/
theorem exists_parts_of_runs {s : List Char} (hs : ∀ c ∈ s, IsLocalChar c) :
    ∃ qs : List LocalPart, (∀ q ∈ qs, q.WellFormed ∧ ¬q.Mixed) ∧
      runs s = qs.map LocalPart.run ++ [.stop] := by
  induction s using Label.front_induction with
  | nil => exact ⟨[], by simp, Label.runs_nil⟩
  | separator c s hc ih =>
    rw [Label.runs_separator hc]
    exact ih fun d hd => hs d (List.mem_cons_of_mem c hd)
  | tilde s => simp [IsLocalChar] at hs
  | caret s => simp [IsLocalChar] at hs
  | letters ls s hne hl clear ih =>
    obtain ⟨qs, hqs, hr⟩ := ih fun d hd => hs d (List.mem_append_right ls hd)
    have lower : ∀ c ∈ ls, c.isLower = true := by
      intro c hc
      rcases hs c (List.mem_append_left s hc) with digit | lower | rfl
      · rw [Text.not_isDigit_of_isAlpha (hl c hc)] at digit
        cases digit
      · exact lower
      · cases hl '.' hc
    refine ⟨.word (String.ofList ls) :: qs,
      List.forall_mem_cons.2 ⟨LocalPart.of_lower hne lower, hqs⟩, ?_⟩
    rw [Label.runs_letters hne hl clear, hr, List.map_cons, LocalPart.run, String.toList_ofList]
    rfl
  | digits ds s hne hd clear ih =>
    obtain ⟨qs, hqs, hr⟩ := ih fun d hd => hs d (List.mem_append_right ds hd)
    refine ⟨.number (Nat.ofDigitChars 10 ds 0) :: qs,
      List.forall_mem_cons.2 ⟨⟨trivial, id⟩, hqs⟩, ?_⟩
    rw [Label.runs_digits hne hd clear, hr]
    rfl

theorem runs_ne_stop {s : List Char} (h : ∃ c ∈ s, c.isDigit = true) : runs s ≠ [.stop] := by
  induction s using Label.front_induction with
  | nil =>
    obtain ⟨c, hc, _⟩ := h
    cases hc
  | separator c s hc ih =>
    rw [Label.runs_separator hc]
    apply ih
    obtain ⟨d, hd, digit⟩ := h
    rcases List.mem_cons.1 hd with rfl | hd
    · simp [Label.separates, Text.isAlphanum_of_isDigit digit] at hc
    · exact ⟨d, hd, digit⟩
  | tilde s => simp [Label.runs_tilde]
  | caret s => simp [Label.runs_caret]
  | letters ls s hne hl clear => simp [Label.runs_letters hne hl clear]
  | digits ds s hne hd clear => simp [Label.runs_digits hne hd clear]

/-! ## Versions that differ in a mixed part -/

namespace Version

/-- A version with a mixed part has a twin without one, which has the same label runs and yet is
another version. -/
theorem exists_twin {v : Version} (hv : v.WellFormed) (hm : v.HasMixedPart) :
    ∃ w : Version, w.WellFormed ∧ ¬w.HasMixedPart ∧
      Label.compareTexts v.label w.label ≠ compare v w := by
  obtain ⟨ps, hps, p, hp, mixed⟩ := hm
  obtain ⟨qs, hqs, hruns⟩ :=
    exists_parts_of_runs (isLocalChar_localChars (hv.parts ps hps))
  have hne : qs ≠ [] := by
    rintro rfl
    obtain ⟨c, hc, digit⟩ := mixed.exists_digit
    exact runs_ne_stop ⟨c, mem_localChars hp hc, digit⟩ hruns
  let w : Version := { v with localParts := some qs }
  have hw : w.WellFormed := by
    refine ⟨hv.release_ne_nil, ?_, ?_⟩
    · rintro _ ⟨rfl⟩
      exact hne
    · rintro _ ⟨rfl⟩ q hq
      exact (hqs q hq).1
  have unmixed : ¬w.HasMixedPart := by
    rintro ⟨_, ⟨rfl⟩, q, hq, hmix⟩
    exact (hqs q hq).2 hmix
  refine ⟨w, hw, unmixed, ?_⟩
  have same_public : compare v.withoutLocal w.withoutLocal = .eq := by
    change compare v.withoutLocal v.withoutLocal = .eq
    exact Std.ReflCmp.compare_self
  have same_runs : compareRuns v.localRuns w.localRuns = .eq := by
    have : w.localRuns = v.localRuns := by
      simp only [localRuns, w, hps]
      rw [hruns, runs_localChars (fun q hq => (hqs q hq).1) fun q hq => (hqs q hq).2]
    rw [this]
    exact Std.ReflCmp.compare_self
  have other : compareLocal v w ≠ .eq := by
    intro h
    simp only [compareLocal, w, hps] at h
    have same : ps = qs := eq_of_compareLocals (hv.parts ps hps) (fun q hq => (hqs q hq).1) h
    exact (hqs p (same ▸ hp)).2 mixed
  rw [compareTexts_label_eq_then hv hw, compare_eq_then v w, same_public, same_runs]
  exact fun h => other h.symm

/-- **Strict encoding is exact.** It refuses a version just if it accepts another one whose label
does not compare to that of the first as the versions do, and it fails for no other reason. -/
theorem strict_refuses_misordered {text : String} {v : Version} (h : parse text = .ok v) :
    ((∃ part, encodeLiteral true text = .error (.mixedLocal text part)) ↔
      ∃ other w l m, parse other = .ok w ∧ encodeLiteral false text = .ok l ∧
        encodeLiteral true other = .ok m ∧ Label.compareTexts l m ≠ compare v w) ∧
    ∀ failure, encodeLiteral true text = .error failure →
      ∃ part, failure = .mixedLocal text part := by
  have hv := parse_wellFormed h
  have plain : encodeLiteral false text = .ok v.label := encodeLiteral_eq h
  have strict : encodeLiteral true text = encode true text v := encodeLiteral_eq h
  rw [strict, plain]
  refine ⟨⟨?_, ?_⟩, ?_⟩
  · rintro ⟨part, refused⟩
    obtain ⟨_, found, _⟩ := encode_strict_error_iff.1 refused
    have mixed : v.HasMixedPart := by
      by_cases hm : v.HasMixedPart
      · exact hm
      · rw [(mixedPart?_eq_none_iff v).2 hm] at found
        cases found
    obtain ⟨w, hw, unmixed, misplaced⟩ := exists_twin hv mixed
    have read := parse_render hw
    have accepted : encodeLiteral true w.render = .ok w.label := by
      rw [encodeLiteral_eq read]
      exact encode_strict_eq_ok_iff.2 ⟨unmixed, rfl⟩
    exact ⟨w.render, w, v.label, w.label, read, rfl, accepted, misplaced⟩
  · rintro ⟨other, w, l, m, read, ⟨rfl⟩, accepted, misplaced⟩
    rw [encodeLiteral_eq read, encode_strict_eq_ok_iff] at accepted
    obtain ⟨unmixed, rfl⟩ := accepted
    cases found : v.mixedPart? with
    | some part => exact ⟨part, encode_strict_error_iff.2 ⟨part, found, rfl⟩⟩
    | none =>
      have hm := (mixedPart?_eq_none_iff v).1 found
      have hw := parse_wellFormed read
      exact absurd (compareTexts_label_eq hv hw fun _ _ _ => ⟨hm, unmixed⟩) misplaced
  · intro failure refused
    obtain ⟨part, _, hf⟩ := encode_strict_error_iff.1 refused
    exact ⟨part, hf⟩

/-- The leading zero in `7` is of no weight for labels: `+a07.b` is placed at `+a.7.b`. -/
theorem strict_refuses_misordered_of_zero :
    parse "1.0+a07.b" = .ok { release := [1, 0], localParts := some [.word "a07", .word "b"] } ∧
      encodeLiteral true "1.0+a07.b" = .error (.mixedLocal "1.0+a07.b" "a07") ∧
      ∃ other w l m, parse other = .ok w ∧ encodeLiteral false "1.0+a07.b" = .ok l ∧
        encodeLiteral true other = .ok m ∧
        Label.compareTexts l m ≠
          compare { release := [1, 0], localParts := some [.word "a07", .word "b"] } w := by
  have read : parse "1.0+a07.b" =
      .ok { release := [1, 0], localParts := some [.word "a07", .word "b"] } := by cbv
  have refused : encodeLiteral true "1.0+a07.b" = .error (.mixedLocal "1.0+a07.b" "a07") := by cbv
  exact ⟨read, refused, (strict_refuses_misordered read).1.1 ⟨"a07", refused⟩⟩

end Version

end DepClause
