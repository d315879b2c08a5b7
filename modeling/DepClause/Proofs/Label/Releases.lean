import Mathlib
import DepClause.Proofs.Label.RunOrder
import DepClause.Proofs.Text.Trim

/-!
# Labels with and without a release

A release counts only between two labels that have one. So the order of labels is transitive among
those with a release and among those without one, and goes wrong only where a label without a
release stands between two that have one.
-/

namespace DepClause

namespace Text

theorem splitLast?_eq_none_iff {sep : Char} {s : List Char} :
    splitLast? sep s = none ↔ sep ∉ s := by
  refine ⟨?_, splitLast?_eq_none⟩
  induction s with
  | nil => simp
  | cons c cs ih =>
    intro h
    cases later : splitLast? sep cs with
    | some parts => simp [splitLast?, later] at h
    | none =>
      have here : c ≠ sep := by
        rintro rfl
        simp [splitLast?, later] at h
      rw [List.mem_cons, not_or]
      exact ⟨here.symm, ih later⟩

end Text

namespace Label

/-! ## Which texts have a release -/

/-- Whether a text has a release when it is read as a label. -/
def HasRelease (text : String) : Prop := (parse text).release.isSome = true

/-- The epoch in front of a text has no hyphen. -/
theorem mem_splitEpoch (s : List Char) : '-' ∈ (splitEpoch s).2 ↔ '-' ∈ s := by
  unfold splitEpoch
  split
  · next d ds rest digits behind =>
    have whole : s = d :: ds ++ ':' :: rest := by
      rw [← digits, ← behind, List.takeWhile_append_dropWhile]
    have no_hyphen : '-' ∉ d :: ds := by
      rw [← digits]
      intro mem
      have digit : Char.isDigit '-' = true := List.all_eq_true.1 List.all_takeWhile _ mem
      cases digit
    have no_colon : '-' ≠ ':' := by decide
    simp only [whole, List.mem_append, no_hyphen, List.mem_cons, no_colon, false_or]
  · rfl

theorem hasRelease_iff {text : String} : HasRelease text ↔ '-' ∈ text.toList := by
  have trimmed : '-' ∈ Text.trim text.toList ↔ '-' ∈ text.toList :=
    ⟨Text.mem_of_mem_trim, fun mem => Text.mem_trim mem rfl⟩
  rw [← trimmed, ← mem_splitEpoch, HasRelease, parse]
  simp only
  cases parts : Text.splitLast? '-' (splitEpoch (Text.trim text.toList)).2 with
  | none => simpa using Text.splitLast?_eq_none_iff.1 parts
  | some pair =>
    refine iff_of_true rfl ?_
    by_contra absent
    rw [Text.splitLast?_eq_none absent] at parts
    cases parts

instance : DecidablePred HasRelease := fun _ => decidable_of_iff _ hasRelease_iff.symm

/-! ## Labels that are alike -/

/-- Labels by epoch, version and release, where a missing release is an empty one. -/
def compareWhole (a b : Label) : Ordering :=
  (a.compareBare b).then
    (compareVersions (a.release.getD "").toList (b.release.getD "").toList)

instance : Std.TransCmp compareWhole :=
  have : Std.TransCmp fun a b : Label =>
      compareVersions (a.release.getD "").toList (b.release.getD "").toList :=
    transCmp_of_keys _ (fun a => (a.release.getD "").toList) fun _ _ => rfl
  inferInstanceAs (Std.TransCmp (compareLex compareBare fun a b : Label =>
    compareVersions (a.release.getD "").toList (b.release.getD "").toList))

section
variable {a b c : Label}

theorem compare_eq_compareWhole (alike : a.release.isSome = b.release.isSome) :
    a.compare b = a.compareWhole b := by
  rw [compare, compareWhole, compareBare, Ordering.then_assoc]
  cases ha : a.release with
  | none =>
    cases hb : b.release with
    | none =>
      have empty : compareVersions "".toList "".toList = .eq := Std.ReflCmp.compare_self
      rw [Option.getD_none, empty]
    | some s => simp [ha, hb] at alike
  | some r =>
    cases hb : b.release with
    | none => simp [ha, hb] at alike
    | some s => rfl

theorem compare_eq_compareBare_of_unlike (unlike : a.release.isSome ≠ b.release.isSome) :
    a.compare b = a.compareBare b := by
  cases ha : a.release with
  | none => exact compare_eq_compareBare ha
  | some r =>
    cases hb : b.release with
    | none => rw [compare, compareBare, ha, hb, Ordering.then_eq]
    | some s => simp [ha, hb] at unlike

theorem compare_eq_swap (a b : Label) : a.compare b = (b.compare a).swap := by
  by_cases alike : a.release.isSome = b.release.isSome
  · rw [compare_eq_compareWhole alike, compare_eq_compareWhole alike.symm]
    exact Std.OrientedCmp.eq_swap
  · rw [compare_eq_compareBare_of_unlike alike, compare_eq_compareBare_of_unlike (Ne.symm alike)]
    exact Std.OrientedCmp.eq_swap

/-- What the release says comes behind epoch and version. -/
theorem compareBare_isLE (h : (a.compare b).isLE) : (a.compareBare b).isLE := by
  by_cases alike : a.release.isSome = b.release.isSome
  · rw [compare_eq_compareWhole alike, compareWhole, Ordering.isLE_then_iff_and] at h
    exact h.1
  · rwa [compare_eq_compareBare_of_unlike alike] at h

theorem compare_eq_then_of_alike (hb : a.release.isSome = b.release.isSome)
    (hc : b.release.isSome = c.release.isSome) (hab : (a.compare b).isLE)
    (hbc : (b.compare c).isLE) : a.compare c = (a.compare b).then (b.compare c) := by
  rw [compare_eq_compareWhole hb] at hab ⊢
  rw [compare_eq_compareWhole hc] at hbc ⊢
  rw [compare_eq_compareWhole (hb.trans hc)]
  exact compare_eq_then_of_isLE hab hbc

/-- Two steps upwards lead downwards only past a label whose missing release hides those of the
ends. -/
theorem releases_of_not_isLE (hab : (a.compare b).isLE) (hbc : (b.compare c).isLE)
    (down : ¬(a.compare c).isLE) :
    a.release.isSome = true ∧ b.release.isSome = false ∧ c.release.isSome = true := by
  have bare : (a.compareBare c).isLE :=
    Std.TransCmp.isLE_trans (compareBare_isLE hab) (compareBare_isLE hbc)
  have ends : a.release.isSome = c.release.isSome := by
    by_contra unlike
    rw [compare_eq_compareBare_of_unlike unlike] at down
    exact down bare
  have middle : b.release.isSome ≠ a.release.isSome := by
    intro alike
    rw [compare_eq_then_of_alike alike.symm (alike.trans ends) hab hbc,
      Ordering.isLE_then_iff_and] at down
    exact down ⟨hab, .inr hbc⟩
  cases ha : a.release.isSome with
  | true =>
    rw [ha] at ends middle
    exact ⟨rfl, Bool.eq_false_iff.2 middle, ends.symm⟩
  | false =>
    -- two labels without a release have nothing but epoch and version
    have none : a.release = none := Option.not_isSome_iff_eq_none.1 (by simp [ha])
    rw [compare_eq_compareBare none] at down
    exact absurd bare down

end

/-- **The order of labels is consistent among labels that are alike.** It is antisymmetric for all
texts. Among texts that all have a release, or all have none, it is transitive, and strict where one
of the steps is. In general two steps upwards lead upwards unless both ends have a release and the
label between them has none. -/
theorem alike_labels_are_ordered :
    (∀ a b, compareTexts a b = (compareTexts b a).swap) ∧
      (∀ a b c, (HasRelease a ∧ HasRelease b ∧ HasRelease c) ∨
          (¬HasRelease a ∧ ¬HasRelease b ∧ ¬HasRelease c) →
        (compareTexts a b).isLE → (compareTexts b c).isLE →
        (compareTexts a c).isLE ∧
          (compareTexts a b = .lt ∨ compareTexts b c = .lt → compareTexts a c = .lt)) ∧
      ∀ a b c, (compareTexts a b).isLE → (compareTexts b c).isLE →
        ¬(HasRelease a ∧ ¬HasRelease b ∧ HasRelease c) → (compareTexts a c).isLE := by
  refine ⟨fun a b => compare_eq_swap _ _, ?_, ?_⟩
  · intro a b c alike hab hbc
    obtain ⟨hb, hc⟩ : (parse a).release.isSome = (parse b).release.isSome ∧
        (parse b).release.isSome = (parse c).release.isSome := by
      simp only [HasRelease] at alike
      grind
    have steps : compareTexts a c = (compareTexts a b).then (compareTexts b c) :=
      compare_eq_then_of_alike hb hc hab hbc
    refine ⟨?_, ?_⟩
    · rw [steps, Ordering.isLE_then_iff_and]
      exact ⟨hab, .inr hbc⟩
    · rw [steps]
      rintro (below | below)
      · rw [below, Ordering.lt_then]
      · rw [below]
        cases first : compareTexts a b with
        | lt => rfl
        | eq => rfl
        | gt =>
          rw [first] at hab
          cases hab
  · intro a b c hab hbc not_between
    by_contra down
    obtain ⟨ha, hb, hc⟩ := releases_of_not_isLE hab hbc down
    exact not_between ⟨ha, by simp [HasRelease, hb], hc⟩

/-- A candidate before a release and the release in two builds. -/
theorem alike_labels_are_ordered_of_builds :
    (HasRelease "1:2~rc-7" ∧ HasRelease "1:2-1" ∧ HasRelease "1:2.fc40-1" ∧ ¬HasRelease "3") ∧
      (compareTexts "1:2~rc-7" "1:2-1" = .lt ∧ compareTexts "1:2-1" "1:2.fc40-1" = .lt) ∧
      compareTexts "1:2~rc-7" "1:2.fc40-1" = .lt ∧
      (compareTexts "3" "1:2-1").isLE ∧ (compareTexts "3" "1:2.fc40-1").isLE := by
  have releases :
      HasRelease "1:2~rc-7" ∧ HasRelease "1:2-1" ∧ HasRelease "1:2.fc40-1" ∧ ¬HasRelease "3" := by
    decide
  have first : compareTexts "1:2~rc-7" "1:2-1" = .lt := by cbv
  have second : compareTexts "1:2-1" "1:2.fc40-1" = .lt := by cbv
  have older : (compareTexts "3" "1:2-1").isLE := by cbv
  have later : (compareTexts "1:2-1" "1:2.fc40-1").isLE := by rw [second]; rfl
  obtain ⟨-, alike, mixed⟩ := alike_labels_are_ordered
  obtain ⟨has_candidate, has_build, has_next, has_none⟩ := releases
  obtain ⟨-, strict⟩ := alike _ _ _ (.inl ⟨has_candidate, has_build, has_next⟩)
    (by rw [first]; rfl) later
  exact ⟨⟨has_candidate, has_build, has_next, has_none⟩, ⟨first, second⟩, strict (.inl first), older,
    mixed _ _ _ older later fun between => has_none between.1⟩

/-- A label without a release hides which of two releases is the later one. -/
example : compareTexts "1.0-2" "1.0" = .eq ∧ compareTexts "1.0" "1.0-1" = .eq ∧
    compareTexts "1.0-2" "1.0-1" = .gt := by
  refine ⟨?_, ?_, ?_⟩ <;> cbv

end Label

end DepClause
