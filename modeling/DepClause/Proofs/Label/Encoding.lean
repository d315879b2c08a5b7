import DepClause.Label.Encoding
import DepClause.Proofs.Label.Spelling
import DepClause.Proofs.Version.WellFormed

/-!
# Reading the label of a version

`parse_label` and `runs_labelBody` read back what `Version.label` writes: the epoch, no release of
the package, and the runs of the version part. Only a local part that mixes letters and digits
comes back as other runs than it was written from.
-/

namespace DepClause

namespace Version

def labelEpoch (v : Version) : List Char := if v.epoch = 0 then [] else numeral v.epoch ++ [':']

def labelPre (v : Version) : List Char :=
  match v.pre with
  | some p => '~' :: p.chars
  | none => []

def labelPost (v : Version) : List Char :=
  match v.post with
  | some n => ".post".toList ++ numeral n
  | none => []

def labelLocal (v : Version) : List Char :=
  match v.localParts with
  | some parts => '^' :: localChars parts
  | none => []

/-- What a label says behind the release. -/
def labelMarks (v : Version) : List Char :=
  v.labelPre ++ (v.labelPost ++ (v.labelDev ++ v.labelLocal))

def labelBody (v : Version) : List Char := releaseChars (labelRelease v.release) ++ v.labelMarks

theorem labelChars_eq (v : Version) : v.labelChars = v.labelEpoch ++ v.labelBody := by
  simp only [labelChars, List.append_assoc]
  rfl

/-- The release of a label has at least two numbers. -/
theorem labelRelease_eq_cons (r : List Nat) : ∃ m n ns, labelRelease r = m :: n :: ns := by
  unfold labelRelease
  split
  · exact ⟨0, 0, [], rfl⟩
  · exact ⟨_, 0, [], rfl⟩
  · next one none =>
    match h : trimZeros 2 r with
    | [] => exact absurd h one
    | [m] => exact absurd h (none m)
    | m :: n :: ns => exact ⟨m, n, ns, rfl⟩

/-! ## The characters of a label -/

/-- The characters that a label can hold: no blank, no comma and no hyphen is one. -/
def IsLabelChar (c : Char) : Prop :=
  c.isAlphanum = true ∨ c = '.' ∨ c = '~' ∨ c = '^' ∨ c = ':'

theorem IsLabelChar.not_blank {c : Char} (h : IsLabelChar c) : Text.isBlank c = false := by
  rcases h with h | rfl | rfl | rfl | rfl
  · exact Text.not_isBlank_of_isAlphanum h
  all_goals decide

theorem IsLabelChar.ne_hyphen {c : Char} (h : IsLabelChar c) : c ≠ '-' := by
  rintro rfl
  rcases h with h | h | h | h | h <;> exact absurd h (by decide)

theorem isLabelChar_of_digit {c : Char} (h : c.isDigit = true) : IsLabelChar c :=
  .inl (Text.isAlphanum_of_isDigit h)

theorem isLabelChar_numeral {n : Nat} {c : Char} (h : c ∈ numeral n) : IsLabelChar c :=
  isLabelChar_of_digit (isDigit_of_mem_numeral h)

theorem isLabelChar_of_mem {s : List Char}
    (hs : s.all (fun c => c.isAlphanum || c == '.' || c == '~') = true) {c : Char} (hc : c ∈ s) :
    IsLabelChar c := by
  have h := List.all_eq_true.1 hs c hc
  simp only [Bool.or_eq_true, beq_iff_eq] at h
  rcases h with (h | h) | h
  · exact .inl h
  · exact .inr (.inl h)
  · exact .inr (.inr (.inl h))

theorem isLabelChar_localChars {ps : List LocalPart} (hp : ∀ p ∈ ps, p.WellFormed) {c : Char}
    (hc : c ∈ localChars ps) : IsLabelChar c := by
  rcases Text.mem_intercalate hc with rfl | ⟨l, hl, hc⟩
  · exact .inr (.inl rfl)
  · obtain ⟨p, hmem, rfl⟩ := List.mem_map.1 hl
    cases p with
    | number n => exact isLabelChar_numeral hc
    | word w =>
      rcases (hp _ hmem).1 c hc with h | h
      · exact isLabelChar_of_digit h
      · exact .inl (Text.isAlphanum_of_isLower h)

theorem isLabelChar_labelPre {v : Version} {c : Char} (hc : c ∈ v.labelPre) : IsLabelChar c := by
  unfold labelPre at hc
  split at hc
  · next p _ =>
    rcases List.mem_cons.1 hc with rfl | hc
    · exact .inr (.inr (.inl rfl))
    · rcases List.mem_append.1 hc with hc | hc
      · exact isLabelChar_of_mem (by cases p.phase <;> decide) hc
      · exact isLabelChar_numeral hc
  · cases hc

theorem isLabelChar_labelPost {v : Version} {c : Char} (hc : c ∈ v.labelPost) :
    IsLabelChar c := by
  unfold labelPost at hc
  split at hc
  · rcases List.mem_append.1 hc with hc | hc
    · exact isLabelChar_of_mem (by decide) hc
    · exact isLabelChar_numeral hc
  · cases hc

theorem isLabelChar_labelDev {v : Version} {c : Char} (hc : c ∈ v.labelDev) : IsLabelChar c := by
  unfold labelDev at hc
  split at hc
  · cases hc
  · split at hc
    all_goals
      rcases List.mem_append.1 hc with hc | hc
      · exact isLabelChar_of_mem (by decide) hc
      · exact isLabelChar_numeral hc

theorem isLabelChar_labelLocal {v : Version} (hv : v.WellFormed) {c : Char}
    (hc : c ∈ v.labelLocal) : IsLabelChar c := by
  unfold labelLocal at hc
  split at hc
  · next ps hps =>
    rcases List.mem_cons.1 hc with rfl | hc
    · exact .inr (.inr (.inr (.inl rfl)))
    · exact isLabelChar_localChars (hv.parts ps hps) hc
  · cases hc

theorem isLabelChar_labelEpoch {v : Version} {c : Char} (hc : c ∈ v.labelEpoch) :
    IsLabelChar c := by
  unfold labelEpoch at hc
  split at hc
  · cases hc
  · rcases List.mem_append.1 hc with hc | hc
    · exact isLabelChar_numeral hc
    · exact .inr (.inr (.inr (.inr (List.mem_singleton.1 hc))))

theorem isLabelChar_releaseChars {ns : List Nat} {c : Char} (hc : c ∈ releaseChars ns) :
    IsLabelChar c := by
  rcases Text.mem_intercalate hc with rfl | ⟨l, hl, hc⟩
  · exact .inr (.inl rfl)
  · obtain ⟨n, _, rfl⟩ := List.mem_map.1 hl
    exact isLabelChar_numeral hc

/-- Every character of a label is one that labels can hold. -/
theorem isLabelChar_labelChars {v : Version} (hv : v.WellFormed) {c : Char}
    (hc : c ∈ v.labelChars) : IsLabelChar c := by
  rw [labelChars_eq, labelBody, labelMarks] at hc
  simp only [List.mem_append] at hc
  rcases hc with hc | hc | hc | hc | hc | hc
  · exact isLabelChar_labelEpoch hc
  · exact isLabelChar_releaseChars hc
  · exact isLabelChar_labelPre hc
  · exact isLabelChar_labelPost hc
  · exact isLabelChar_labelDev hc
  · exact isLabelChar_labelLocal hv hc

/-! ## Cutting a label -/

/-- A release goes on behind its first number, with a point. -/
theorem releaseChars_eq (r : List Nat) :
    ∃ n rest, releaseChars (labelRelease r) = numeral n ++ '.' :: rest := by
  obtain ⟨m, n, ns, h⟩ := labelRelease_eq_cons r
  refine ⟨m, releaseChars (n :: ns), ?_⟩
  simp [h, releaseChars, List.intercalate_cons_cons]

theorem splitEpoch_numeral (n : Nat) (rest : List Char) :
    Label.splitEpoch (numeral n ++ ':' :: rest) = (n, rest) := by
  obtain ⟨d, ds, hd⟩ := List.exists_cons_of_ne_nil (numeral_ne_nil n)
  have clear : Text.Clear Char.isDigit (':' :: rest) := Text.clear_cons _ rfl
  rw [Label.splitEpoch, Text.takeWhile_append (fun _ h => isDigit_of_mem_numeral h) clear,
    Text.dropWhile_append (fun _ h => isDigit_of_mem_numeral h) clear, hd]
  simp only
  rw [← hd, ofDigitChars_numeral]

/-- The point behind the first number keeps it from being an epoch. -/
theorem splitEpoch_labelBody (v : Version) :
    Label.splitEpoch v.labelBody = (0, v.labelBody) := by
  obtain ⟨n, rest, h⟩ := releaseChars_eq v.release
  have hb : v.labelBody = numeral n ++ '.' :: (rest ++ v.labelMarks) := by
    rw [labelBody, h, List.append_assoc, List.cons_append]
  have clear : Text.Clear Char.isDigit ('.' :: (rest ++ v.labelMarks)) := Text.clear_cons _ rfl
  rw [Label.splitEpoch, hb, Text.takeWhile_append (fun _ h => isDigit_of_mem_numeral h) clear,
    Text.dropWhile_append (fun _ h => isDigit_of_mem_numeral h) clear]
  split
  · next heq => cases heq
  · rfl

theorem splitEpoch_labelChars (v : Version) :
    Label.splitEpoch v.labelChars = (v.epoch, v.labelBody) := by
  rw [labelChars_eq, labelEpoch]
  by_cases h : v.epoch = 0
  · rw [if_pos h, h]
    exact splitEpoch_labelBody v
  · rw [if_neg h, List.append_assoc]
    exact splitEpoch_numeral v.epoch v.labelBody

/-- The parts of the label of a version. -/
theorem parse_label {v : Version} (hv : v.WellFormed) :
    Label.parse v.label = ⟨v.epoch, String.ofList v.labelBody, none⟩ := by
  have trim : Text.trim v.labelChars = v.labelChars :=
    Text.trim_of_not_blank fun c hc => (isLabelChar_labelChars hv hc).not_blank
  have split : Text.splitLast? '-' v.labelBody = none := by
    refine Text.splitLast?_eq_none fun hc => ?_
    have hmem : '-' ∈ v.labelChars := by
      rw [labelChars_eq]
      exact List.mem_append_right _ hc
    exact (isLabelChar_labelChars hv hmem).ne_hyphen rfl
  simp only [Label.parse, label, String.toList_ofList, trim, splitEpoch_labelChars, split]

/-- Labels of versions compare by epoch and by the runs of their version parts. -/
theorem compareTexts_label {v w : Version} (hv : v.WellFormed) (hw : w.WellFormed) :
    Label.compareTexts v.label w.label = (Ord.compare v.epoch w.epoch).then
      (Label.compareRuns (Label.runs v.labelBody) (Label.runs w.labelBody)) := by
  simp only [Label.compareTexts, Label.compare, parse_label hv, parse_label hw,
    String.toList_ofList, Label.compareVersions_eq, Ordering.then_eq]

/-! ## The runs of a label -/

open Label (Run runs)

theorem clear_labelLocal (v : Version) : Text.Clear Char.isDigit v.labelLocal := by
  unfold labelLocal
  split
  · exact Text.clear_cons _ rfl
  · exact Text.clear_nil _

theorem clear_labelDev_append (v : Version) :
    Text.Clear Char.isDigit (v.labelDev ++ v.labelLocal) := by
  unfold labelDev
  split
  · exact clear_labelLocal v
  · split <;> exact Text.clear_cons _ rfl

theorem clear_labelPost_append (v : Version) :
    Text.Clear Char.isDigit (v.labelPost ++ (v.labelDev ++ v.labelLocal)) := by
  unfold labelPost
  split
  · exact Text.clear_cons _ rfl
  · exact clear_labelDev_append v

theorem clear_labelMarks (v : Version) : Text.Clear Char.isDigit v.labelMarks := by
  unfold labelMarks labelPre
  split
  · exact Text.clear_cons _ rfl
  · exact clear_labelPost_append v

def preRuns (v : Version) : List Run :=
  match v.pre with
  | some p => [.tilde, .letters (p.phase.label.toList.map Char.toNat), .number p.number]
  | none => []

def postRuns (v : Version) : List Run :=
  match v.post with
  | some n => [.letters ("post".toList.map Char.toNat), .number n]
  | none => []

def devRuns (v : Version) : List Run :=
  match v.dev with
  | none => []
  | some n =>
    if v.pre.isSome || v.post.isSome then [.tilde, .letters ("dev".toList.map Char.toNat), .number n]
    else [.tilde, .tilde, .letters ("dev".toList.map Char.toNat), .number n]

def localRuns (v : Version) : List Run :=
  match v.localParts with
  | some parts => .caret :: runs (localChars parts)
  | none => [.stop]

theorem runs_labelLocal (v : Version) : runs v.labelLocal = v.localRuns := by
  unfold labelLocal localRuns
  split
  · exact Label.runs_caret _
  · exact Label.runs_nil

theorem runs_labelDev_append (v : Version) :
    runs (v.labelDev ++ v.labelLocal) = v.devRuns ++ v.localRuns := by
  have dev (n : Nat) : runs ("dev".toList ++ (numeral n ++ v.labelLocal)) =
      .letters ("dev".toList.map Char.toNat) :: .number n :: v.localRuns := by
    rw [Label.runs_word_numeral n (by decide) (by decide) (clear_labelLocal v), runs_labelLocal]
  have one : "~dev".toList = '~' :: "dev".toList := rfl
  have two : "~~dev".toList = '~' :: '~' :: "dev".toList := rfl
  cases hd : v.dev with
  | none =>
    simp only [labelDev, devRuns, hd, List.nil_append]
    exact runs_labelLocal v
  | some n =>
    simp only [labelDev, devRuns, hd]
    split
    · simp only [one, List.cons_append, List.append_assoc]
      rw [Label.runs_tilde, dev]
      rfl
    · simp only [two, List.cons_append, List.append_assoc]
      rw [Label.runs_tilde, Label.runs_tilde, dev]
      rfl

theorem runs_labelPost_append (v : Version) :
    runs (v.labelPost ++ (v.labelDev ++ v.labelLocal)) =
      v.postRuns ++ (v.devRuns ++ v.localRuns) := by
  have point : ".post".toList = '.' :: "post".toList := rfl
  cases hp : v.post with
  | none =>
    simp only [labelPost, postRuns, hp, List.nil_append]
    exact runs_labelDev_append v
  | some n =>
    simp only [labelPost, postRuns, hp]
    rw [point, List.cons_append, List.cons_append, List.append_assoc, Label.runs_point,
      Label.runs_word_numeral n (by decide) (by decide) (clear_labelDev_append v),
      runs_labelDev_append]
    rfl

theorem runs_labelMarks (v : Version) :
    runs v.labelMarks = v.preRuns ++ (v.postRuns ++ (v.devRuns ++ v.localRuns)) := by
  cases hp : v.pre with
  | none =>
    simp only [labelMarks, labelPre, preRuns, hp, List.nil_append]
    exact runs_labelPost_append v
  | some p =>
    simp only [labelMarks, labelPre, preRuns, hp]
    rw [PreRelease.chars, List.cons_append, List.append_assoc, Label.runs_tilde,
      Label.runs_word_numeral p.number (by cases p.phase <;> decide)
        (by cases p.phase <;> decide) (clear_labelPost_append v),
      runs_labelPost_append]
    rfl

/-- The runs of the version part of a label. -/
theorem runs_labelBody (v : Version) :
    runs v.labelBody = (labelRelease v.release).map .number ++
      (v.preRuns ++ (v.postRuns ++ (v.devRuns ++ v.localRuns))) := by
  obtain ⟨m, n, ns, h⟩ := labelRelease_eq_cons v.release
  rw [labelBody, Label.runs_releaseChars (by simp [h]) (clear_labelMarks v), runs_labelMarks]

end Version

end DepClause
