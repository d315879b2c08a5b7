import DepClause.Proofs.Label.Embedding

/-!
# Local parts in labels

A number and a word without digits are one run of the label each, so local versions without mixed
parts compare as their labels do. A mixed part is more than one run and has no such law.
-/

namespace DepClause

open Label (Run runs compareRuns)

namespace LocalPart

/-- A part that mixes digits with letters: a word with a digit. -/
def Mixed : LocalPart → Prop
  | .number _ => False
  | .word w => ∃ c ∈ w.toList, c.isDigit = true

def run : LocalPart → Run
  | .number n => .number n
  | .word w => .letters (w.toList.map Char.toNat)

theorem chars_word {w : String} (hw : (LocalPart.word w).WellFormed)
    (hm : ¬(LocalPart.word w).Mixed) : w.toList ≠ [] ∧ ∀ c ∈ w.toList, c.isLower = true := by
  obtain ⟨hc, c, hmem, _⟩ := hw
  refine ⟨List.ne_nil_of_mem hmem, fun c hc' => ?_⟩
  rcases hc c hc' with h | h
  · exact absurd ⟨c, hc', h⟩ hm
  · exact h

/-- A part in front of a text that goes on with no letter and no digit. -/
theorem runs_chars_append {p : LocalPart} (hp : p.WellFormed) (hm : ¬p.Mixed) {rest : List Char}
    (hr : Text.Clear Char.isAlphanum rest) : runs (p.chars ++ rest) = p.run :: runs rest := by
  have clear : Text.Clear Char.isAlpha rest ∧ Text.Clear Char.isDigit rest :=
    ⟨fun c hc => (Bool.or_eq_false_iff.1 (hr c hc)).1,
      fun c hc => (Bool.or_eq_false_iff.1 (hr c hc)).2⟩
  cases p with
  | number n => exact Label.runs_numeral n clear.2
  | word w =>
    obtain ⟨hne, hl⟩ := chars_word hp hm
    exact Label.runs_letters hne (fun c hc => Text.isAlpha_of_isLower (hl c hc)) clear.1

/-- The letters and digits of a word are its units. -/
theorem units_of_isAlphanum {s : List Char} (h : ∀ c ∈ s, c.isAlphanum = true) :
    Text.units s = s.map Char.toNat := by
  induction s with
  | nil => rfl
  | cons c cs ih =>
    have hc := Text.toNat_lt_of_isAlphanum (h c List.mem_cons_self)
    have hu : Text.charUnits c = [c.toNat] := by
      rw [Text.charUnits, Text.numberUnits, if_neg (show ¬0x10F800 ≤ c.toNat by omega),
        Text.encodeNumber, if_pos (by omega)]
    rw [Text.units, List.flatMap_cons, hu, ← Text.units,
      ih fun d hd => h d (List.mem_cons_of_mem c hd)]
    rfl

theorem WellFormed.units_word {w : String} (hw : (LocalPart.word w).WellFormed) :
    Text.units w.toList = w.toList.map Char.toNat := by
  apply units_of_isAlphanum
  intro c hc
  rcases hw.1 c hc with h | h
  · exact Text.isAlphanum_of_isDigit h
  · exact Text.isAlphanum_of_isLower h

theorem compare_run {p q : LocalPart} (hp : p.WellFormed) (hq : q.WellFormed) :
    p.run.compare q.run = p.compare q := by
  cases p with
  | number m => cases q <;> rfl
  | word v =>
    cases q with
    | number n => rfl
    | word w =>
      rw [LocalPart.compare, Text.compareUnits, hp.units_word, hq.units_word]
      rfl

/-- Parts that were read are equal if they compare so. -/
theorem eq_of_compare {p q : LocalPart} (hp : p.WellFormed) (hq : q.WellFormed)
    (h : p.compare q = .eq) : p = q := by
  cases p with
  | number m =>
    cases q with
    | number n => exact congrArg number (Nat.compare_eq_eq.1 h)
    | word w => cases h
  | word v =>
    cases q with
    | number n => cases h
    | word w =>
      rw [LocalPart.compare, Text.compareUnits, hp.units_word, hq.units_word] at h
      have same := List.map_inj_right (fun c d => Char.toNat_inj.1) |>.1
        (Std.LawfulEqOrd.eq_of_compare h)
      exact congrArg word (String.toList_inj.1 same)

end LocalPart

theorem eq_of_compareLocals {ps qs : List LocalPart} (hp : ∀ p ∈ ps, p.WellFormed)
    (hq : ∀ q ∈ qs, q.WellFormed) (h : compareLocals ps qs = .eq) : ps = qs := by
  induction ps generalizing qs with
  | nil =>
    cases qs with
    | nil => rfl
    | cons q qs => cases h
  | cons p ps ih =>
    cases qs with
    | nil => cases h
    | cons q qs =>
      rw [compareLocals, List.compareLex_cons_cons, Ordering.then_eq_eq] at h
      have head := LocalPart.eq_of_compare (hp p List.mem_cons_self) (hq q List.mem_cons_self) h.1
      have tail := ih (fun r hr => hp r (List.mem_cons_of_mem p hr))
        (fun r hr => hq r (List.mem_cons_of_mem q hr)) h.2
      rw [head, tail]

theorem runs_localChars {ps : List LocalPart} (hp : ∀ p ∈ ps, p.WellFormed)
    (hm : ∀ p ∈ ps, ¬p.Mixed) : runs (localChars ps) = ps.map LocalPart.run ++ [.stop] := by
  induction ps with
  | nil => exact Label.runs_nil
  | cons p ps ih =>
    have part {rest : List Char} (hr : Text.Clear Char.isAlphanum rest) :
        runs (p.chars ++ rest) = p.run :: runs rest :=
      LocalPart.runs_chars_append (hp p List.mem_cons_self) (hm p List.mem_cons_self) hr
    cases ps with
    | nil =>
      have h := part (Text.clear_nil _)
      rw [List.append_nil, Label.runs_nil] at h
      simpa [localChars] using h
    | cons q qs =>
      have hc : localChars (p :: q :: qs) = p.chars ++ '.' :: localChars (q :: qs) := by
        simp [localChars, List.intercalate_cons_cons]
      rw [hc, part (Text.clear_cons _ rfl), Label.runs_point,
        ih (fun r hr => hp r (List.mem_cons_of_mem p hr))
          fun r hr => hm r (List.mem_cons_of_mem p hr)]
      rfl

theorem compareRuns_map_run {ps qs : List LocalPart} (hp : ∀ p ∈ ps, p.WellFormed)
    (hq : ∀ q ∈ qs, q.WellFormed) :
    compareRuns (ps.map LocalPart.run ++ [.stop]) (qs.map LocalPart.run ++ [.stop]) =
      compareLocals ps qs := by
  have opens (p : LocalPart) (rs : List Run) : Label.Opens (2 ≤ ·) (p.run :: rs) := by
    cases p with
    | number n => exact ⟨.number n, rs, rfl, show 2 ≤ 4 by decide⟩
    | word w => exact ⟨.letters _, rs, rfl, show 2 ≤ 3 by decide⟩
  induction ps generalizing qs with
  | nil =>
    cases qs with
    | nil => rfl
    | cons q qs => exact Label.compareRuns_lt ⟨.stop, _, rfl, by decide⟩ (opens q _)
  | cons p ps ih =>
    cases qs with
    | nil => exact Label.compareRuns_gt (opens p _) ⟨.stop, _, rfl, by decide⟩
    | cons q qs =>
      have hpq := LocalPart.compare_run (hp p List.mem_cons_self) (hq q List.mem_cons_self)
      have rest := ih (fun r hr => hp r (List.mem_cons_of_mem p hr))
        fun r hr => hq r (List.mem_cons_of_mem q hr)
      simp only [List.map_cons, List.cons_append]
      rw [Label.compareRuns_cons, hpq, rest, compareLocals, compareLocals,
        List.compareLex_cons_cons]

end DepClause
