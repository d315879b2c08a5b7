import Mathlib
import DepClause.Proofs.Label.Spelling
import DepClause.Proofs.Version.Reading
import DepClause.Proofs.Version.WellFormed
import DepClause.Version.Printer

/-!
# Reading the normal form

The normal form of a version is the text of a settled spelling, whose version it is. So it is read
back as the version that it was written from.
-/

namespace DepClause

/-! ## The characters of a spelling -/

/-- A character of a spelling: trimming and changing to lower case leave it. -/
def IsVersionChar (c : Char) : Prop :=
  c.isDigit = true ∨ c.isLower = true ∨ c ∈ ['-', '_', '.', '!', '+']

instance (c : Char) : Decidable (IsVersionChar c) :=
  inferInstanceAs (Decidable (c.isDigit = true ∨ c.isLower = true ∨ c ∈ ['-', '_', '.', '!', '+']))

theorem IsVersionChar.not_blank {c : Char} (h : IsVersionChar c) : Text.isBlank c = false := by
  rcases h with h | h | h
  · exact Text.not_isBlank_of_isAlphanum (Text.isAlphanum_of_isDigit h)
  · exact Text.not_isBlank_of_isAlphanum (Text.isAlphanum_of_isLower h)
  · simp only [List.mem_cons, List.not_mem_nil, or_false] at h
    rcases h with rfl | rfl | rfl | rfl | rfl <;> decide

theorem IsVersionChar.toLower_eq {c : Char} (h : IsVersionChar c) : c.toLower = c := by
  apply Text.toLower_of_not_isUpper
  rw [Bool.eq_false_iff, Ne, Text.isUpper_iff]
  rcases h with h | h | h
  · rw [Text.isDigit_iff] at h
    omega
  · rw [Text.isLower_iff] at h
    omega
  · simp only [List.mem_cons, List.not_mem_nil, or_false] at h
    rcases h with rfl | rfl | rfl | rfl | rfl <;> decide

theorem isVersionChar_separator (s : Separator) : IsVersionChar s.char := by
  cases s <;> exact .inr (.inr (by decide))

theorem isVersionChar_digits (d : Digits) : ∀ c ∈ d.chars, IsVersionChar c :=
  fun c hc => .inl (d.isDigit c hc)

theorem isVersionChar_mark {ω : Type} {word : ω → List Char}
    (h : ∀ l, (word l).all Char.isLower = true) (m : Mark ω) :
    ∀ c ∈ m.chars word, IsVersionChar c := by
  have separator (b : Option Separator) : ∀ c ∈ separatorChars b, IsVersionChar c := by
    intro c hc
    cases b with
    | none => cases hc
    | some s =>
      obtain rfl := List.mem_singleton.1 hc
      exact isVersionChar_separator s
  have number (n : Option Digits) : ∀ c ∈ numberChars n, IsVersionChar c := by
    intro c hc
    cases n with
    | none => cases hc
    | some d => exact isVersionChar_digits d c hc
  intro c hc
  simp only [Mark.chars, List.mem_append] at hc
  rcases hc with hc | hc | hc | hc
  · exact separator m.before c hc
  · exact .inr (.inl (List.all_eq_true.1 (h m.label) c hc))
  · exact separator m.behind c hc
  · exact number m.number c hc

theorem isVersionChar_markText {ω : Type} {word : ω → List Char}
    (h : ∀ l, (word l).all Char.isLower = true) (m : Option (Mark ω)) {rest : List Char}
    (hr : ∀ c ∈ rest, IsVersionChar c) : ∀ c ∈ markText word m rest, IsVersionChar c := by
  intro c hc
  cases m with
  | none => exact hr c hc
  | some m =>
    rcases List.mem_append.1 hc with hc | hc
    · exact isVersionChar_mark h m c hc
    · exact hr c hc

theorem isVersionChar_postMark (p : PostMark) : ∀ c ∈ p.chars, IsVersionChar c := by
  intro c hc
  cases p with
  | bare d =>
    rcases List.mem_cons.1 hc with rfl | hc
    · exact isVersionChar_separator .hyphen
    · exact isVersionChar_digits d c hc
  | labelled m => exact isVersionChar_mark (by intro l; cases l <;> decide) m c hc

namespace Spelling

theorem isVersionChar_localText (s : Spelling) : ∀ c ∈ s.localText, IsVersionChar c := by
  have run (r : LocalRun) : ∀ c ∈ r.chars, IsVersionChar c := by
    intro c hc
    rcases r.isAlphanum c hc with h | h
    · exact .inl h
    · exact .inr (.inl h)
  intro c hc
  unfold localText localMarkText at hc
  split at hc
  · cases hc
  · rcases List.mem_cons.1 hc with rfl | hc
    · exact .inr (.inr (by decide))
    · simp only [LocalRuns.chars, List.mem_append, List.mem_flatMap, List.mem_cons] at hc
      rcases hc with hc | ⟨⟨b, r⟩, _, rfl | hc⟩
      · exact run _ c hc
      · exact isVersionChar_separator b
      · exact run r c hc

theorem isVersionChar_devText (s : Spelling) : ∀ c ∈ s.devText, IsVersionChar c :=
  isVersionChar_markText (by intro l; cases l; decide) s.dev s.isVersionChar_localText

theorem isVersionChar_postText (s : Spelling) : ∀ c ∈ s.postText, IsVersionChar c := by
  intro c hc
  unfold postText postMarkText at hc
  split at hc
  · exact s.isVersionChar_devText c hc
  · next p _ =>
    rcases List.mem_append.1 hc with hc | hc
    · exact isVersionChar_postMark p c hc
    · exact s.isVersionChar_devText c hc

theorem isVersionChar_preText (s : Spelling) : ∀ c ∈ s.preText, IsVersionChar c :=
  isVersionChar_markText (by intro l; cases l <;> decide) s.pre s.isVersionChar_postText

theorem isVersionChar_chars (s : Spelling) : ∀ c ∈ s.chars, IsVersionChar c := by
  have release : ∀ c ∈ s.releaseText, IsVersionChar c := by
    intro c hc
    simp only [releaseText, segmentChars, List.mem_append, List.mem_flatMap, List.mem_cons] at hc
    rcases hc with hc | ⟨d, _, rfl | hc⟩ | hc
    · exact isVersionChar_digits _ c hc
    · exact isVersionChar_separator .point
    · exact isVersionChar_digits d c hc
    · exact s.isVersionChar_preText c hc
  have epoch : ∀ c ∈ s.epochText, IsVersionChar c := by
    intro c hc
    unfold epochText epochMarkText at hc
    split at hc
    · exact release c hc
    · simp only [List.mem_append, List.mem_cons] at hc
      rcases hc with hc | rfl | hc
      · exact isVersionChar_digits _ c hc
      · exact .inr (.inr (by decide))
      · exact release c hc
  intro c hc
  unfold chars at hc
  split at hc
  · rcases List.mem_cons.1 hc with rfl | hc
    · exact .inr (.inl rfl)
    · exact epoch c hc
  · exact epoch c hc

/-- A spelling is written by its own text. -/
theorem writes_chars (s : Spelling) : s.Writes (String.ofList s.chars) := by
  have whole : Text.trim s.chars = s.chars :=
    Text.trim_of_not_blank fun c hc => (s.isVersionChar_chars c hc).not_blank
  have lower : s.chars.map Char.toLower = s.chars := by
    rw [List.map_congr_left fun c hc => (s.isVersionChar_chars c hc).toLower_eq]
    exact List.map_id s.chars
  rw [Writes, String.toList_ofList, whole, lower]

theorem parse_chars {s : Spelling} (h : s.Settled) :
    Version.parse (String.ofList s.chars) = .ok s.version := by
  have read : Version.parse? (String.ofList s.chars) = some s.version := by
    rw [Version.parse?, s.writes_chars]
    exact Version.ofChars?_chars h
  rw [Version.parse, read]

end Spelling

/-! ## The spelling of the normal form -/

theorem Mark.takes_of_number {ω : Type} {m : Mark ω} {d : Digits} (hm : m.number = some d)
    {rest : List Char} (h : Text.Clear Char.isDigit rest) : m.Takes rest := by
  refine ⟨?_, h⟩
  intro _ s
  rw [hm]
  exact d.head_ne_separator rest s

/-- The digits of a number. -/
def Digits.ofNat (n : Nat) : Digits :=
  ⟨numeral n, numeral_ne_nil n, fun _ hc => isDigit_of_mem_numeral hc⟩

theorem Digits.value_ofNat (n : Nat) : (ofNat n).value = n := ofDigitChars_numeral n

/-- The label of a phase in the normal form. -/
def Phase.word : Phase → PhaseWord
  | .alpha => .a
  | .beta => .b
  | .candidate => .rc

theorem Phase.chars_word (p : Phase) : p.word.chars = p.label.toList := by
  cases p <;> rfl

theorem Phase.phase_word (p : Phase) : p.word.phase = p := by
  cases p <;> rfl

theorem exists_localRun {p : LocalPart} (h : p.WellFormed) :
    ∃ r : LocalRun, r.chars = p.chars ∧ r.part = p := by
  cases p with
  | number n =>
    have digit : ∀ c ∈ numeral n, c.isDigit = true := fun c hc => isDigit_of_mem_numeral hc
    refine ⟨⟨numeral n, numeral_ne_nil n, fun c hc => .inl (digit c hc)⟩, rfl, ?_⟩
    rw [LocalRun.part, if_pos (List.all_eq_true.2 digit), ofDigitChars_numeral]
  | word w =>
    obtain ⟨alphanum, c, hc, hd⟩ := h
    refine ⟨⟨w.toList, List.ne_nil_of_mem hc, alphanum⟩, rfl, ?_⟩
    have mixed : ¬w.toList.all Char.isDigit = true := by
      intro digit
      rw [List.all_eq_true.1 digit c hc] at hd
      cases hd
    rw [LocalRun.part, if_neg mixed, String.ofList_toList]

theorem intercalate_point (x : List Char) (xs : List (List Char)) :
    ['.'].intercalate (x :: xs) = x ++ xs.flatMap fun y => '.' :: y :=
  Text.intercalate_cons ['.'] x xs

theorem exists_localRuns {ps : List LocalPart} (hne : ps ≠ []) (h : ∀ p ∈ ps, p.WellFormed) :
    ∃ l : LocalRuns, l.chars = localChars ps ∧ l.parts = ps := by
  obtain ⟨p, ps, rfl⟩ := List.exists_cons_of_ne_nil hne
  obtain ⟨first, hfirst, hpart⟩ := exists_localRun (h p List.mem_cons_self)
  have others : ∃ rs : List (Separator × LocalRun),
      (rs.flatMap fun x => x.1.char :: x.2.chars) =
        (ps.map LocalPart.chars).flatMap (fun y => '.' :: y) ∧
      rs.map (fun x => x.2.part) = ps := by
    have hps : ∀ q ∈ ps, q.WellFormed := fun q hq => h q (List.mem_cons_of_mem p hq)
    clear h hpart
    induction ps with
    | nil => exact ⟨[], rfl, rfl⟩
    | cons q qs ih =>
      obtain ⟨r, hr, hq⟩ := exists_localRun (hps q List.mem_cons_self)
      obtain ⟨rs, text, parts⟩ := ih (by simp) fun k hk => hps k (List.mem_cons_of_mem q hk)
      refine ⟨(.point, r) :: rs, ?_, ?_⟩
      · simp only [List.flatMap_cons, List.map_cons, text, hr]
        rfl
      · simp only [List.map_cons, parts, hq]
  obtain ⟨rs, text, parts⟩ := others
  refine ⟨⟨first, rs⟩, ?_, ?_⟩
  · rw [localChars, List.map_cons, intercalate_point, ← text, LocalRuns.chars, hfirst]
  · have tail : rs.map (fun x => x.2.part) = ps := parts
    simp only [LocalRuns.parts, LocalRuns.runs, List.map_cons, List.map_map, hpart,
      Function.comp_def, tail]

namespace Version

def epochChars (v : Version) : List Char := if v.epoch = 0 then [] else numeral v.epoch ++ ['!']

def preChars (v : Version) : List Char :=
  match v.pre with
  | some p => p.chars
  | none => []

def postChars (v : Version) : List Char :=
  match v.post with
  | some n => ".post".toList ++ numeral n
  | none => []

def devChars (v : Version) : List Char :=
  match v.dev with
  | some n => ".dev".toList ++ numeral n
  | none => []

def localPartChars (v : Version) : List Char :=
  match v.localParts with
  | some parts => '+' :: localChars parts
  | none => []

theorem chars_eq (v : Version) :
    v.chars = v.epochChars ++ (releaseChars v.release ++ (v.preChars ++ (v.postChars ++
      (v.devChars ++ v.localPartChars)))) := by
  simp only [chars, List.append_assoc]
  rfl

/-- The spelling of the normal form of a version with the release `n.ns…`. -/
def normalSpelling (v : Version) (n : Nat) (ns : List Nat) (runs : Option LocalRuns) :
    Spelling where
  marked := false
  epoch := if v.epoch = 0 then none else some (.ofNat v.epoch)
  release := .ofNat n
  segments := ns.map .ofNat
  pre := v.pre.map fun p => ⟨none, p.phase.word, none, some (.ofNat p.number)⟩
  post := v.post.map fun k => .labelled ⟨some .point, .post, none, some (.ofNat k)⟩
  dev := v.dev.map fun k => ⟨some .point, .dev, none, some (.ofNat k)⟩
  localRuns := runs

section
variable {v : Version} {n : Nat} {ns : List Nat} {runs : Option LocalRuns}

theorem normalSpelling_settled : (v.normalSpelling n ns runs).Settled := by
  let s := v.normalSpelling n ns runs
  refine ⟨?_, ?_, ?_⟩
  · intro m hm
    obtain ⟨p, _, rfl⟩ := Option.map_eq_some_iff.1 hm
    exact Mark.takes_of_number rfl (s.postText_boundary.clear_isDigit (by simp))
  · intro m hm
    obtain ⟨k, _, hk⟩ := Option.map_eq_some_iff.1 hm
    cases hk
    exact Mark.takes_of_number rfl (s.devText_boundary.clear_isDigit (by simp))
  · intro m hm
    obtain ⟨k, _, rfl⟩ := Option.map_eq_some_iff.1 hm
    exact Mark.takes_of_number rfl (s.localText_boundary.clear_isDigit (by simp))

theorem normalSpelling_version (hr : v.release = n :: ns)
    (hl : runs.map LocalRuns.parts = v.localParts) :
    (v.normalSpelling n ns runs).version = v := by
  obtain ⟨epoch, release, pre, post, dev, locals⟩ := v
  obtain rfl : release = n :: ns := hr
  have hepoch : ((if epoch = 0 then none else some (Digits.ofNat epoch)).map Digits.value).getD 0 =
      epoch := by
    split
    · next he => exact he.symm
    · exact Digits.value_ofNat epoch
  have hrelease : (Digits.ofNat n).value :: (ns.map Digits.ofNat).map Digits.value = n :: ns := by
    simp [Digits.value_ofNat, Function.comp_def]
  simp only [normalSpelling, Spelling.version, hepoch, hrelease, hl, Option.map_map]
  simp [Function.comp_def, PostMark.value, Mark.value, Phase.phase_word, Digits.value_ofNat]

theorem normalSpelling_chars (hr : v.release = n :: ns)
    (hl : localMarkText runs = v.localPartChars) :
    (v.normalSpelling n ns runs).chars = v.chars := by
  let s := v.normalSpelling n ns runs
  have devText : s.devText = v.devChars ++ s.localText := by
    cases hd : v.dev with
    | none => simp [s, normalSpelling, Spelling.devText, markText, devChars, hd]
    | some k =>
      simp [s, normalSpelling, Spelling.devText, markText, devChars, hd, Mark.chars,
        separatorChars, Separator.char, DevWord.chars, numberChars, Digits.ofNat]
  have postText : s.postText = v.postChars ++ s.devText := by
    cases hp : v.post with
    | none => simp [s, normalSpelling, Spelling.postText, postMarkText, postChars, hp]
    | some k =>
      simp [s, normalSpelling, Spelling.postText, postMarkText, postChars, hp, PostMark.chars,
        Mark.chars, separatorChars, Separator.char, PostWord.chars, numberChars, Digits.ofNat]
  have preText : s.preText = v.preChars ++ s.postText := by
    cases hp : v.pre with
    | none => simp [s, normalSpelling, Spelling.preText, markText, preChars, hp]
    | some p =>
      simp [s, normalSpelling, Spelling.preText, markText, preChars, hp, PreRelease.chars,
        Mark.chars, separatorChars, Phase.chars_word, numberChars, Digits.ofNat]
  have releaseText : s.releaseText = releaseChars v.release ++ s.preText := by
    rw [hr, releaseChars, List.map_cons, intercalate_point]
    simp [s, normalSpelling, Spelling.releaseText, segmentChars, Digits.ofNat, List.flatMap_map]
  have chars : s.chars = v.epochChars ++ s.releaseText := by
    by_cases he : v.epoch = 0
    · simp [s, normalSpelling, Spelling.chars, Spelling.epochText, epochMarkText, epochChars, he]
    · simp [s, normalSpelling, Spelling.chars, Spelling.epochText, epochMarkText, epochChars, he,
        Digits.ofNat]
  have localText : s.localText = localMarkText runs := rfl
  show s.chars = v.chars
  rw [chars, releaseText, preText, postText, devText, localText, hl, chars_eq]

end

/-- The normal form has a settled spelling. -/
theorem exists_spelling_chars {v : Version} (hv : v.WellFormed) :
    ∃ s : Spelling, s.chars = v.chars ∧ s.Settled ∧ s.version = v := by
  obtain ⟨n, ns, hr⟩ := List.exists_cons_of_ne_nil hv.release_ne_nil
  obtain ⟨runs, text, parts⟩ : ∃ runs : Option LocalRuns,
      localMarkText runs = v.localPartChars ∧ runs.map LocalRuns.parts = v.localParts := by
    unfold localPartChars
    cases hl : v.localParts with
    | none => exact ⟨none, rfl, rfl⟩
    | some ps =>
      obtain ⟨l, chars, parts⟩ := exists_localRuns (hv.parts_ne_nil ps hl) (hv.parts ps hl)
      refine ⟨some l, ?_, ?_⟩
      · rw [localMarkText, chars]
      · rw [Option.map_some, parts]
  exact ⟨v.normalSpelling n ns runs, normalSpelling_chars hr text, normalSpelling_settled,
    normalSpelling_version hr parts⟩

/-- A version is read from its normal form. -/
theorem parse_render {v : Version} (hv : v.WellFormed) : parse v.render = .ok v := by
  obtain ⟨s, chars, settled, version⟩ := exists_spelling_chars hv
  rw [render, ← chars, s.parse_chars settled, version]

theorem isVersion_of_parse {text : String} {v : Version} (h : parse text = .ok v) :
    isVersion text = true := by
  unfold parse at h
  split at h
  · next read => rw [isVersion, read, Option.isSome_some]
  · cases h

theorem exists_parse {text : String} (h : isVersion text = true) : ∃ v, parse text = .ok v := by
  obtain ⟨v, read⟩ := Option.isSome_iff_exists.1 h
  exact ⟨v, by rw [parse, read]⟩

/-- In lower case, what a literal has between its blanks are characters of spellings. -/
theorem isVersionChar_of_parse {text : String} {v : Version} (h : parse text = .ok v) {c : Char}
    (hc : c ∈ text.toList) (visible : Text.isBlank c = false) : IsVersionChar c.toLower := by
  obtain ⟨u, hu⟩ := Option.isSome_iff_exists.1 (isVersion_of_parse h)
  obtain ⟨s, hs, -, -⟩ := exists_spelling hu
  have lower : c.toLower ∈ (Text.trim text.toList).map Char.toLower :=
    List.mem_map.2 ⟨c, Text.mem_trim hc visible, rfl⟩
  rw [← hs] at lower
  exact s.isVersionChar_chars c.toLower lower

/-- There is no star in a version. -/
theorem star_not_mem_of_parse {text : String} {v : Version} (h : parse text = .ok v) :
    '*' ∉ text.toList := by
  intro star
  exact absurd (isVersionChar_of_parse h star rfl) (by decide)

/-- **Each version has one normal form.** What is written for a literal is a literal of the same
version, and it is its own normal form. Two literals have the same normal form just if they are read
as the same version. -/
theorem render_normal_form {text : String} (h : isVersion text = true) :
    ∃ v, parse text = .ok v ∧
      isVersion v.render = true ∧ parse v.render = .ok v ∧
      (parse v.render).map render = .ok v.render ∧
      ∀ other w, parse other = .ok w → (v.render = w.render ↔ v = w) := by
  obtain ⟨v, read⟩ := exists_parse h
  have back : parse v.render = .ok v := parse_render (parse_wellFormed read)
  refine ⟨v, read, isVersion_of_parse back, back, ?_, ?_⟩
  · rw [back]
    rfl
  · intro other w hw
    have back' : parse w.render = .ok w := parse_render (parse_wellFormed hw)
    constructor
    · intro same
      rw [same, back'] at back
      exact (Except.ok.inj back).symm
    · rintro rfl
      rfl

/-- Each piece ends in digits or a separator that the next piece could have taken. -/
theorem render_normal_form_of_aliases :
    isVersion " V01!2.00.0Preview-3-4_dEv+Ab-007_0x" = true ∧
      (parse " V01!2.00.0Preview-3-4_dEv+Ab-007_0x").map render =
        .ok "1!2.0.0rc3.post4.dev0+ab.7.0x" ∧
      parse "1!2.0.0rc3.post4.dev0+ab.7.0x" = parse " V01!2.00.0Preview-3-4_dEv+Ab-007_0x" := by
  have accepted : isVersion " V01!2.00.0Preview-3-4_dEv+Ab-007_0x" = true := by cbv
  have written : (parse " V01!2.00.0Preview-3-4_dEv+Ab-007_0x").map render =
      .ok "1!2.0.0rc3.post4.dev0+ab.7.0x" := by cbv
  obtain ⟨v, read, _, back, _⟩ := render_normal_form accepted
  have normal : v.render = "1!2.0.0rc3.post4.dev0+ab.7.0x" := by
    rw [read] at written
    exact Except.ok.inj written
  rw [normal, ← read] at back
  exact ⟨accepted, written, back⟩

end Version

end DepClause
