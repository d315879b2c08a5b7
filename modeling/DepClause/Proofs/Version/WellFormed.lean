import DepClause.Version.Reader

/-!
# Versions that were read

What `parse` promises of a version: it has a release, and its local parts are not empty and hold
only digits and lower-case letters.
-/

namespace DepClause

/-- A word has a character that is no digit, or it would be a number. -/
def LocalPart.WellFormed : LocalPart → Prop
  | .number _ => True
  | .word w => (∀ c ∈ w.toList, c.isDigit = true ∨ c.isLower = true) ∧
      ∃ c ∈ w.toList, c.isDigit = false

namespace Version

structure WellFormed (v : Version) : Prop where
  release_ne_nil : v.release ≠ []
  parts_ne_nil : ∀ ps, v.localParts = some ps → ps ≠ []
  parts : ∀ ps, v.localParts = some ps → ∀ p ∈ ps, p.WellFormed

theorem readRelease?_ne_nil {s rest : List Char} {ns : List Nat}
    (h : readRelease? s = some (ns, rest)) : ns ≠ [] := by
  unfold readRelease? at h
  split at h
  · cases h
  · cases h
    exact List.cons_ne_nil _ _

theorem localPart_wellFormed {cs : List Char}
    (h : ∀ c ∈ cs, c.isDigit = true ∨ c.isLower = true) : (localPart cs).WellFormed := by
  unfold localPart
  split
  · trivial
  · next hd =>
    obtain ⟨c, hc, hcd⟩ := List.all_eq_false.1 (Bool.eq_false_iff.2 hd)
    refine ⟨?_, c, ?_, Bool.eq_false_iff.2 hcd⟩
    · simpa using h
    · simpa using hc

theorem readLocal?_wellFormed {s : List Char} {ps : List LocalPart}
    (h : readLocal? s = some (some ps)) : ps ≠ [] ∧ ∀ p ∈ ps, p.WellFormed := by
  unfold readLocal? at h
  split at h
  · cases h
  · next cs =>
    dsimp only at h
    split at h
    · next hall =>
      cases h
      refine ⟨by simp [List.splitOnP_ne_nil], ?_⟩
      intro p hp
      obtain ⟨q, hq, rfl⟩ := List.mem_map.1 hp
      have hq' := List.all_eq_true.1 hall q hq
      simp only [Bool.and_eq_true, List.all_eq_true, Bool.or_eq_true] at hq'
      exact localPart_wellFormed hq'.2
    · cases h
  · cases h

theorem ofChars?_wellFormed {s : List Char} {v : Version} (h : ofChars? s = some v) :
    v.WellFormed := by
  unfold ofChars? at h
  obtain ⟨⟨ns, rest⟩, hr, h⟩ := Option.bind_eq_some_iff.1 h
  obtain ⟨parts, hp, h⟩ := Option.bind_eq_some_iff.1 h
  cases h
  refine ⟨readRelease?_ne_nil hr, ?_, ?_⟩
  · intro ps hps
    cases hps
    exact (readLocal?_wellFormed hp).1
  · intro ps hps
    cases hps
    exact (readLocal?_wellFormed hp).2

theorem parse_wellFormed {text : String} {v : Version} (h : parse text = .ok v) :
    v.WellFormed := by
  unfold parse at h
  split at h
  · next hv =>
    cases h
    exact ofChars?_wellFormed hv
  · cases h

end Version

end DepClause
