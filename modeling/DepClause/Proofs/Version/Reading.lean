import DepClause.Proofs.Version.Spelling
import DepClause.Version.Reader

/-!
# The reader and the grammar of versions

Each step of the reader reads back what its part of a settled spelling writes, and what a step read
is a part of a settled spelling. So the reader accepts just the texts of the grammar, and its result
is the version of the settled spelling.
-/

namespace DepClause.Version

/-! ## Separators, numbers and labels -/

theorem isSeparator_iff {c : Char} : isSeparator c = true ↔ ∃ s : Separator, c = s.char := by
  constructor
  · intro h
    simp only [isSeparator, Bool.or_eq_true, beq_iff_eq] at h
    rcases h with (rfl | rfl) | rfl
    · exact ⟨.hyphen, rfl⟩
    · exact ⟨.underscore, rfl⟩
    · exact ⟨.point, rfl⟩
  · rintro ⟨s, rfl⟩
    cases s <;> rfl

theorem dropSeparator_chars {b : Option Separator} {rest : List Char}
    (h : b = none → Text.Clear isSeparator rest) :
    dropSeparator (separatorChars b ++ rest) = rest := by
  cases b with
  | some s => simp [separatorChars, dropSeparator, isSeparator_iff.2 ⟨s, rfl⟩]
  | none =>
    cases rest with
    | nil => rfl
    | cons c cs => simp [separatorChars, dropSeparator, h rfl c rfl]

theorem exists_separator (s : List Char) :
    ∃ b, s = separatorChars b ++ dropSeparator s ∧ (b = none → Text.Clear isSeparator s) := by
  cases s with
  | nil => exact ⟨none, rfl, fun _ => Text.clear_nil _⟩
  | cons c cs =>
    cases hc : isSeparator c with
    | true =>
      obtain ⟨b, rfl⟩ := isSeparator_iff.1 hc
      exact ⟨some b, by simp [separatorChars, dropSeparator, hc], fun h => by cases h⟩
    | false =>
      exact ⟨none, by simp [separatorChars, dropSeparator, hc], fun _ => Text.clear_cons cs hc⟩

theorem digits_chars {n : Option Digits} {rest : List Char} (h : Text.Clear Char.isDigit rest) :
    digits (numberChars n ++ rest) = (numberChars n, rest) := by
  have hd : ∀ c ∈ numberChars n, c.isDigit = true := by
    cases n with
    | none => intro c hc; cases hc
    | some d => exact d.isDigit
  rw [digits, Text.takeWhile_append hd h, Text.dropWhile_append hd h]

theorem exists_digits (s : List Char) :
    ∃ n, (digits s).1 = numberChars n ∧ s = numberChars n ++ (digits s).2 ∧
      Text.Clear Char.isDigit (digits s).2 := by
  have hs : s = s.takeWhile Char.isDigit ++ s.dropWhile Char.isDigit :=
    List.takeWhile_append_dropWhile.symm
  have clear := Text.clear_dropWhile Char.isDigit s
  cases ht : s.takeWhile Char.isDigit with
  | nil =>
    rw [ht] at hs
    exact ⟨none, ht, hs, clear⟩
  | cons d ds =>
    have isDigit : ∀ c ∈ d :: ds, c.isDigit = true := by
      rw [← ht]
      exact List.all_eq_true.1 List.all_takeWhile
    rw [ht] at hs
    exact ⟨some ⟨d :: ds, List.cons_ne_nil d ds, isDigit⟩, ht, hs, clear⟩

theorem digitsValue_numberChars {ω : Type} (m : Mark ω) :
    digitsValue (numberChars m.number) = m.value := by
  unfold Mark.value
  cases m.number <;> rfl

theorem head_ne_separator_iff {s : List Char} :
    (∀ b : Separator, s.head? ≠ some b.char) ↔ Text.Clear isSeparator s := by
  constructor
  · intro h c hc
    cases hs : isSeparator c with
    | false => rfl
    | true =>
      obtain ⟨b, rfl⟩ := isSeparator_iff.1 hs
      exact absurd hc (h b)
  · intro h b hb
    have := h b.char hb
    rw [isSeparator_iff.2 ⟨b, rfl⟩] at this
    cases this

theorem labelNumber_chars {ω : Type} {m : Mark ω} {rest : List Char} (h : m.Takes rest) :
    labelNumber (separatorChars m.behind ++ (numberChars m.number ++ rest)) = (m.value, rest) := by
  have drop : dropSeparator (separatorChars m.behind ++ (numberChars m.number ++ rest)) =
      numberChars m.number ++ rest := by
    apply dropSeparator_chars
    intro hb
    exact head_ne_separator_iff.1 (h.separator hb)
  simp only [labelNumber, drop, digits_chars h.digits, digitsValue_numberChars]

/-- Whatever stands behind a label, its number is read as a settled spelling says. -/
theorem exists_labelNumber {ω : Type} (before : Option Separator) (label : ω) (s : List Char) :
    ∃ m : Mark ω, m.before = before ∧ m.label = label ∧
      s = separatorChars m.behind ++ (numberChars m.number ++ (labelNumber s).2) ∧
      m.value = (labelNumber s).1 ∧ m.Takes (labelNumber s).2 := by
  obtain ⟨b, hb, clear⟩ := exists_separator s
  obtain ⟨n, hn, hd, stop⟩ := exists_digits (dropSeparator s)
  refine ⟨⟨before, label, b, n⟩, rfl, rfl, ?_, ?_, ?_, stop⟩
  · simp only [labelNumber]
    rw [← hd]
    exact hb
  · simp only [labelNumber, hn]
    exact (digitsValue_numberChars (⟨before, label, b, n⟩ : Mark ω)).symm
  · rintro rfl
    simp only [labelNumber]
    rw [← hd, head_ne_separator_iff]
    simp only [separatorChars, List.nil_append] at hb
    rw [← hb]
    exact clear rfl

theorem not_isSeparator_of_isLower {c : Char} (h : c.isLower = true) : isSeparator c = false := by
  cases hs : isSeparator c with
  | false => rfl
  | true =>
    obtain ⟨b, rfl⟩ := isSeparator_iff.1 hs
    cases b <;> cases h

/-- The letters that make another label of a label. -/
def joins (c : Char) : Bool := c == 'l' || c == 'e' || c == 'v'

/-- A table that lists the words of a kind of label, with their meanings. Of two words of which one
begins the other the longer one is found. -/
structure Lists {ω α : Type} (labels : List (List Char × α)) (word : ω → List Char)
    (meaning : ω → α) : Prop where
  found : ∀ l rest, Text.Clear joins rest → label? labels (word l ++ rest) = some (meaning l, rest)
  listed : ∀ x ∈ labels, ∃ l, word l = x.1 ∧ meaning l = x.2
  lower : ∀ l, ∃ c cs, word l = c :: cs ∧ c.isLower = true

theorem not_joins_of_isDigit {c : Char} (h : c.isDigit = true) : joins c = false := by
  cases hj : joins c with
  | false => rfl
  | true =>
    simp only [joins, Bool.or_eq_true, beq_iff_eq] at hj
    rcases hj with (rfl | rfl) | rfl <;> cases h

theorem ne_of_clear_joins {c : Char} {cs : List Char} (h : Text.Clear joins (c :: cs)) :
    'l' ≠ c ∧ 'e' ≠ c ∧ 'v' ≠ c := by
  have hc := h c rfl
  simp only [joins, Bool.or_eq_false_iff, beq_eq_false_iff_ne] at hc
  exact ⟨hc.1.1.symm, hc.1.2.symm, hc.2.symm⟩

theorem phaseLabels_lists : Lists phaseLabels PhaseWord.chars PhaseWord.phase where
  found l rest h := by
    cases rest with
    | nil => cases l <;> rfl
    | cons c cs =>
      obtain ⟨hl, he, hv⟩ := ne_of_clear_joins h
      cases l <;>
        simp [PhaseWord.chars, PhaseWord.phase, label?, phaseLabels, hl, he, hv]
  listed x hx := by
    simp only [phaseLabels, List.mem_cons, List.not_mem_nil, or_false] at hx
    rcases hx with rfl | rfl | rfl | rfl | rfl | rfl | rfl | rfl
    · exact ⟨.alpha, rfl, rfl⟩
    · exact ⟨.a, rfl, rfl⟩
    · exact ⟨.beta, rfl, rfl⟩
    · exact ⟨.b, rfl, rfl⟩
    · exact ⟨.preview, rfl, rfl⟩
    · exact ⟨.pre, rfl, rfl⟩
    · exact ⟨.c, rfl, rfl⟩
    · exact ⟨.rc, rfl, rfl⟩
  lower l := by cases l <;> exact ⟨_, _, rfl, rfl⟩

theorem postLabels_lists : Lists postLabels PostWord.chars fun _ => () where
  found l rest h := by
    cases rest with
    | nil => cases l <;> rfl
    | cons c cs =>
      obtain ⟨_, he, _⟩ := ne_of_clear_joins h
      cases l <;> simp [PostWord.chars, label?, postLabels, he]
  listed x hx := by
    simp only [postLabels, List.mem_cons, List.not_mem_nil, or_false] at hx
    rcases hx with rfl | rfl | rfl
    · exact ⟨.post, rfl, rfl⟩
    · exact ⟨.rev, rfl, rfl⟩
    · exact ⟨.r, rfl, rfl⟩
  lower l := by cases l <;> exact ⟨_, _, rfl, rfl⟩

theorem devLabels_lists : Lists devLabels DevWord.chars fun _ => () where
  found l rest _ := by
    cases l
    simp [DevWord.chars, label?, devLabels]
  listed x hx := by
    simp only [devLabels, List.mem_cons, List.not_mem_nil, or_false] at hx
    obtain rfl := hx
    exact ⟨.dev, rfl, rfl⟩
  lower l := by
    cases l
    exact ⟨_, _, rfl, rfl⟩

section
variable {ω α : Type} {labels : List (List Char × α)} {word : ω → List Char} {meaning : ω → α}

theorem exists_label (h : Lists labels word meaning) {s rest : List Char} {x : α}
    (hs : label? labels s = some (x, rest)) : ∃ l, s = word l ++ rest ∧ meaning l = x := by
  obtain ⟨⟨w, y⟩, hmem, hw⟩ := List.exists_of_findSome?_eq_some hs
  simp only at hw
  split at hw
  · next hp =>
    obtain ⟨rest', hr⟩ := List.isPrefixOf_iff_prefix.1 hp
    obtain ⟨l, rfl, rfl⟩ := h.listed _ hmem
    cases hw
    refine ⟨l, ?_, rfl⟩
    rw [← hr, List.drop_left]
  · cases hw

/-- The separator before a label is dropped, and only this one. -/
theorem dropSeparator_mark (h : Lists labels word meaning) (m : Mark ω) (rest : List Char) :
    dropSeparator (m.chars word ++ rest) =
      word m.label ++ (separatorChars m.behind ++ (numberChars m.number ++ rest)) := by
  simp only [Mark.chars, List.append_assoc]
  apply dropSeparator_chars
  intro _
  obtain ⟨c, cs, hc, lower⟩ := h.lower m.label
  rw [hc]
  apply Text.clear_cons
  exact not_isSeparator_of_isLower lower

theorem clear_behind (m : Mark ω) {p : Char → Bool} (separator : ∀ b : Separator, p b.char = false)
    (digit : ∀ c, c.isDigit = true → p c = false) {rest : List Char} (h : Text.Clear p rest) :
    Text.Clear p (separatorChars m.behind ++ (numberChars m.number ++ rest)) := by
  cases m.behind with
  | some b => exact Text.clear_cons _ (separator b)
  | none =>
    cases m.number with
    | none => exact h
    | some d => exact d.clear_append digit rest

/-- A mark that has taken what follows it is read as it is. -/
theorem labelled?_chars (h : Lists labels word meaning) {m : Mark ω} {rest : List Char}
    (hm : m.Takes rest) (hj : Text.Clear joins rest) :
    labelled? labels (m.chars word ++ rest) = some (meaning m.label, m.value, rest) := by
  have clear : Text.Clear joins (separatorChars m.behind ++ (numberChars m.number ++ rest)) := by
    apply clear_behind m _ (fun c hc => not_joins_of_isDigit hc) hj
    intro b
    cases b <;> rfl
  rw [labelled?, dropSeparator_mark h, h.found m.label _ clear]
  simp only [labelNumber_chars hm]

theorem exists_mark (h : Lists labels word meaning) {s rest : List Char} {x : α} {n : Nat}
    (hs : labelled? labels s = some (x, n, rest)) :
    ∃ m : Mark ω, s = m.chars word ++ rest ∧ meaning m.label = x ∧ m.value = n ∧ m.Takes rest := by
  unfold labelled? at hs
  split at hs
  · next x' rest' hl =>
    obtain ⟨l, hw, rfl⟩ := exists_label h hl
    obtain ⟨b, hb, _⟩ := exists_separator s
    obtain ⟨m, rfl, rfl, hm, hv, ht⟩ := exists_labelNumber b l rest'
    have whole : some (meaning m.label, labelNumber rest') = some (x, n, rest) := hs
    obtain ⟨rfl, tail⟩ := Prod.mk.inj (Option.some.inj whole)
    rw [tail] at hm hv ht
    have text : rest' = separatorChars m.behind ++ (numberChars m.number ++ rest) := hm
    refine ⟨m, ?_, rfl, hv, ht⟩
    rw [Mark.chars, List.append_assoc, List.append_assoc, List.append_assoc, ← text, ← hw]
    exact hb
  · cases hs

end

/-! ## The parts before the marks -/

theorem digits_append (d : Digits) {rest : List Char} (h : Text.Clear Char.isDigit rest) :
    digits (d.chars ++ rest) = (d.chars, rest) :=
  digits_chars (n := some d) h

theorem exists_of_digits_eq_cons {t ds rest : List Char} {d : Char}
    (h : digits t = (d :: ds, rest)) : ∃ e : Digits, e.chars = d :: ds ∧ t = e.chars ++ rest := by
  obtain ⟨n, hn, ht, _⟩ := exists_digits t
  rw [h] at hn ht
  cases n with
  | none => cases hn
  | some e => exact ⟨e, hn.symm, ht⟩

theorem clear_segments {p : Char → Bool} (hp : p '.' = false) {rest : List Char}
    (h : Text.Clear p rest) (segments : List Digits) :
    Text.Clear p (segmentChars segments ++ rest) := by
  cases segments with
  | nil => exact h
  | cons d ds => exact Text.clear_cons _ hp

theorem readEpoch_text (s : Spelling) :
    readEpoch s.epochText = ((s.epoch.map Digits.value).getD 0, s.releaseText) := by
  cases he : s.epoch with
  | some d =>
    obtain ⟨c, cs, hc, _⟩ := d.exists_cons
    have hd : digits (d.chars ++ '!' :: s.releaseText) = (c :: cs, '!' :: s.releaseText) := by
      rw [digits_append d (Text.clear_cons _ rfl), hc]
    rw [Spelling.epochText, he, epochMarkText, readEpoch, hd]
    show (digitsValue (c :: cs), s.releaseText) = (d.value, s.releaseText)
    rw [← hc]
    rfl
  | none =>
    have clear : Text.Clear Char.isDigit (segmentChars s.segments ++ s.preText) :=
      clear_segments rfl (s.preText_boundary.clear_isDigit (by simp)) _
    have unmarked : Text.Clear (· == '!') (segmentChars s.segments ++ s.preText) := by
      apply clear_segments rfl
      apply s.preText_boundary.clear (by simp) _ rfl
      intro b
      cases b <;> rfl
    rw [Spelling.epochText, he, epochMarkText]
    simp only [readEpoch, Spelling.releaseText, digits_append s.release clear]
    split
    · next h =>
      have := unmarked '!' (by rw [(Prod.mk.inj h).2]; rfl)
      cases this
    · rfl

theorem exists_epoch (t : List Char) : ∃ e : Option Digits,
    t = epochMarkText e (readEpoch t).2 ∧ (e.map Digits.value).getD 0 = (readEpoch t).1 := by
  unfold readEpoch
  split
  · next d ds rest hd =>
    obtain ⟨e, he, ht⟩ := exists_of_digits_eq_cons hd
    refine ⟨some e, ht, ?_⟩
    rw [← he]
    rfl
  · exact ⟨none, rfl, rfl⟩

theorem readSegments_cons {c : Char} (h : c.isDigit = true) (cs : List Char) :
    readSegments ('.' :: c :: cs) =
      (digitsValue (c :: cs.takeWhile Char.isDigit) ::
          (readSegments (cs.dropWhile Char.isDigit)).1,
        (readSegments (cs.dropWhile Char.isDigit)).2) := by
  rw [readSegments, if_pos h]

theorem readSegments_stop {t : List Char}
    (h : ∀ cs, t = '.' :: cs → Text.Clear Char.isDigit cs) : readSegments t = ([], t) := by
  unfold readSegments
  split
  · next c cs =>
    have hc := h (c :: cs) rfl c rfl
    rw [hc, if_neg Bool.false_ne_true]
  · rfl

theorem readSegments_text (segments : List Digits) {rest : List Char}
    (h : Text.Clear Char.isDigit rest)
    (point : ∀ cs, rest = '.' :: cs → Text.Clear Char.isDigit cs) :
    readSegments (segmentChars segments ++ rest) = (segments.map Digits.value, rest) := by
  induction segments with
  | nil => exact readSegments_stop point
  | cons d ds ih =>
    obtain ⟨c, cs, hc, hd⟩ := d.exists_cons
    have hcs : ∀ x ∈ cs, x.isDigit = true := fun x hx =>
      d.isDigit x (hc ▸ List.mem_cons_of_mem c hx)
    have clear := clear_segments rfl h ds
    have text : segmentChars (d :: ds) ++ rest = '.' :: c :: (cs ++ (segmentChars ds ++ rest)) := by
      simp [segmentChars, hc]
    rw [text, readSegments_cons hd, Text.takeWhile_append hcs clear,
      Text.dropWhile_append hcs clear, ih, List.map_cons, Digits.value, hc]
    rfl

theorem exists_segments (t : List Char) : ∃ segments : List Digits,
    t = segmentChars segments ++ (readSegments t).2 ∧
      segments.map Digits.value = (readSegments t).1 := by
  fun_induction readSegments t with
  | case1 c cs hc ns rest hr ih =>
    obtain ⟨ds, ht, hv⟩ := ih
    rw [hr] at ht hv
    have isDigit : ∀ x ∈ c :: cs.takeWhile Char.isDigit, x.isDigit = true := by
      intro x hx
      rcases List.mem_cons.1 hx with rfl | hx
      · exact hc
      · exact List.all_eq_true.1 List.all_takeWhile x hx
    let d : Digits := ⟨c :: cs.takeWhile Char.isDigit, List.cons_ne_nil _ _, isDigit⟩
    refine ⟨d :: ds, ?_, ?_⟩
    · have hcs : cs = cs.takeWhile Char.isDigit ++ (segmentChars ds ++ rest) := by
        rw [← ht]
        exact List.takeWhile_append_dropWhile.symm
      have text : segmentChars (d :: ds) ++ rest =
          '.' :: c :: (cs.takeWhile Char.isDigit ++ (segmentChars ds ++ rest)) := by
        simp [segmentChars, d]
      rw [text, ← hcs]
    · rw [List.map_cons, hv]
      rfl
  | case2 c cs hc => exact ⟨[], rfl, rfl⟩
  | case3 t _ => exact ⟨[], rfl, rfl⟩

theorem readRelease?_text (s : Spelling) :
    readRelease? s.releaseText = some (s.version.release, s.preText) := by
  have clear := s.preText_boundary.clear_isDigit (by simp)
  have point : ∀ cs, s.preText = '.' :: cs → Text.Clear Char.isDigit cs := by
    intro cs h
    exact (h ▸ s.preText_boundary).clear_of_point (by simp)
  obtain ⟨c, cs, hc, _⟩ := s.release.exists_cons
  have hd : digits s.releaseText = (c :: cs, segmentChars s.segments ++ s.preText) := by
    rw [Spelling.releaseText, digits_append _ (clear_segments rfl clear _), hc]
  rw [readRelease?, hd]
  simp only [readSegments_text s.segments clear point, ← hc]
  rfl

theorem exists_release {t rest : List Char} {ns : List Nat}
    (h : readRelease? t = some (ns, rest)) : ∃ (d : Digits) (segments : List Digits),
      t = d.chars ++ (segmentChars segments ++ rest) ∧
        ns = d.value :: segments.map Digits.value := by
  unfold readRelease? at h
  split at h
  · cases h
  · next ds rest' hne hd =>
    obtain ⟨c, cs, rfl⟩ := List.exists_cons_of_ne_nil hne
    obtain ⟨d, hc, ht⟩ := exists_of_digits_eq_cons hd
    obtain ⟨segments, hs, hv⟩ := exists_segments rest'
    cases h
    refine ⟨d, segments, ?_, ?_⟩
    · rw [ht, ← hs]
    · rw [hv, Digits.value, hc]
      rfl

/-! ## The marks -/

section
variable {α : Type} {labels : List (List Char × α)}

theorem label?_eq_none {t : List Char}
    (h : ∀ x ∈ labels, ∃ c cs, x.1 = c :: cs ∧ t.head? ≠ some c) : label? labels t = none := by
  apply List.findSome?_eq_none_iff.2
  intro x hx
  obtain ⟨c, cs, hc, ht⟩ := h x hx
  simp only [hc]
  apply if_neg
  rw [List.isPrefixOf_iff_prefix]
  rintro ⟨u, rfl⟩
  exact ht rfl

/-- No label is read where a boundary has other letters than the labels begin with. -/
theorem labelled?_eq_none {ω : Type} {word : ω → List Char} {meaning : ω → α}
    (h : Lists labels word meaning) {first letters t : List Char}
    (begins : ∀ l, ∃ c cs, word l = c :: cs ∧ c ∈ first)
    (apart : first.all (fun c => !letters.contains c) = true)
    (lower : (first ++ letters).all Char.isLower = true) (ht : Boundary letters t) :
    labelled? labels t = none := by
  have small : ∀ c ∈ first ++ letters, c.isLower = true := List.all_eq_true.1 lower
  have none : label? labels (dropSeparator t) = none := by
    apply label?_eq_none
    intro x hx
    obtain ⟨l, hl, _⟩ := h.listed x hx
    obtain ⟨c, cs, hc, hfirst⟩ := begins l
    refine ⟨c, cs, hl ▸ hc, ?_⟩
    intro head
    cases ht with
    | stop => cases head
    | plus s =>
      obtain rfl := Option.some.inj head
      cases small _ (List.mem_append_left _ hfirst)
    | bare hd s =>
      obtain rfl := Option.some.inj head
      have alpha := Text.isAlpha_of_isLower (small _ (List.mem_append_left _ hfirst))
      rw [Text.not_isDigit_of_isAlpha alpha] at hd
      cases hd
    | label before hl s =>
      have letter := not_isSeparator_of_isLower (small _ (List.mem_append_right _ hl))
      rw [dropSeparator_chars fun _ => Text.clear_cons s letter] at head
      obtain rfl := Option.some.inj head
      have other := List.all_eq_true.1 apart _ hfirst
      simp [hl] at other
  rw [labelled?, none]

end

theorem exists_pre (t : List Char) : ∃ m : Option (Mark PhaseWord),
    t = markText PhaseWord.chars m (readPre t).2 ∧
      m.map (fun k => ⟨k.label.phase, k.value⟩) = (readPre t).1 ∧
      ∀ k, m = some k → k.Takes (readPre t).2 := by
  unfold readPre
  split
  · next hl =>
    obtain ⟨m, ht, rfl, rfl, takes⟩ := exists_mark phaseLabels_lists hl
    refine ⟨some m, ht, rfl, ?_⟩
    rintro k ⟨rfl⟩
    exact takes
  · exact ⟨none, rfl, rfl, fun k hk => by cases hk⟩

theorem exists_dev (t : List Char) : ∃ m : Option (Mark DevWord),
    t = markText DevWord.chars m (readDev t).2 ∧ m.map Mark.value = (readDev t).1 ∧
      ∀ k, m = some k → k.Takes (readDev t).2 := by
  unfold readDev
  split
  · next hl =>
    obtain ⟨m, ht, _, rfl, takes⟩ := exists_mark devLabels_lists hl
    refine ⟨some m, ht, rfl, ?_⟩
    rintro k ⟨rfl⟩
    exact takes
  · exact ⟨none, rfl, rfl, fun k hk => by cases hk⟩

/-- A post-release has a label where no digit follows its hyphen. -/
theorem readPost_of_clear {t : List Char}
    (h : ∀ cs, t = '-' :: cs → Text.Clear Char.isDigit cs) :
    readPost t = (labelled? postLabels t).elim (none, t) fun x => (some x.2.1, x.2.2) := by
  have no_digit : ∀ cs, t = '-' :: cs → digits cs = ([], cs) :=
    fun cs ht => digits_chars (n := none) (h cs ht)
  cases hl : labelled? postLabels t with
  | none =>
    simp only [readPost, hl]
    split
    · next cs => simp only [no_digit cs rfl, Option.elim_none]
    · rfl
  | some x =>
    simp only [readPost, hl]
    split
    · next cs => simp only [no_digit cs rfl, Option.elim_some]
    · rfl

theorem readPost_bare (d : Digits) {rest : List Char} (h : Text.Clear Char.isDigit rest) :
    readPost ('-' :: (d.chars ++ rest)) = (some d.value, rest) := by
  obtain ⟨c, cs, hc, _⟩ := d.exists_cons
  have hd : digits (d.chars ++ rest) = (c :: cs, rest) := by rw [digits_append d h, hc]
  simp only [readPost, hd]
  rw [← hc]
  rfl

theorem exists_post (t : List Char) : ∃ p : Option PostMark,
    t = postMarkText p (readPost t).2 ∧ p.map PostMark.value = (readPost t).1 ∧
      ∀ m, p = some (.labelled m) → m.Takes (readPost t).2 := by
  by_cases bare : ∃ cs, t = '-' :: cs ∧ ¬ Text.Clear Char.isDigit cs
  · obtain ⟨cs, rfl, hcs⟩ := bare
    obtain ⟨n, _, hn, clear⟩ := exists_digits cs
    cases n with
    | none =>
      rw [numberChars, List.nil_append] at hn
      exact absurd (hn ▸ clear) hcs
    | some d =>
      have text : cs = d.chars ++ (digits cs).2 := hn
      have read : readPost ('-' :: cs) = (some d.value, (digits cs).2) := by
        rw [text, readPost_bare d clear, ← text]
      rw [read]
      refine ⟨some (.bare d), ?_, rfl, fun m h => by cases h⟩
      rw [postMarkText, PostMark.chars, List.cons_append, ← text]
  · have clear : ∀ cs, t = '-' :: cs → Text.Clear Char.isDigit cs := by
      intro cs ht
      by_cases hc : Text.Clear Char.isDigit cs
      · exact hc
      · exact absurd ⟨cs, ht, hc⟩ bare
    cases hl : labelled? postLabels t with
    | some x =>
      obtain ⟨u, n, rest⟩ := x
      obtain ⟨m, ht, _, rfl, takes⟩ := exists_mark postLabels_lists hl
      rw [readPost_of_clear clear, hl]
      refine ⟨some (.labelled m), ht, rfl, ?_⟩
      rintro k ⟨rfl⟩
      exact takes
    | none =>
      rw [readPost_of_clear clear, hl]
      exact ⟨none, rfl, rfl, fun m h => by cases h⟩

section
variable {s : Spelling}

theorem postText_joins (s : Spelling) : Text.Clear joins s.postText := by
  apply s.postText_boundary.clear (by simp [joins]) _ rfl
  intro b
  cases b <;> rfl

/-- Though both `r` and `rc` are labels. -/
theorem label?_postWord (l : PostWord) {rest : List Char} (h : Text.Clear (· == 'c') rest) :
    label? phaseLabels (l.chars ++ rest) = none := by
  cases rest with
  | nil => cases l <;> rfl
  | cons c cs =>
    have hc : 'c' ≠ c := by
      rintro rfl
      cases h 'c' rfl
    cases l <;> simp [PostWord.chars, label?, phaseLabels, hc]

/-- A post-release is no pre-release. -/
theorem labelled?_phase_postText (s : Spelling) : labelled? phaseLabels s.postText = none := by
  cases hp : s.post with
  | none =>
    rw [Spelling.postText, hp]
    exact labelled?_eq_none phaseLabels_lists PhaseWord.exists_cons rfl rfl
      s.devText_boundary
  | some p =>
    rw [Spelling.postText, hp]
    cases p with
    | bare d =>
      obtain ⟨c, cs, hc, hd⟩ := d.exists_cons
      rw [postMarkText, PostMark.chars, hc]
      exact labelled?_eq_none phaseLabels_lists PhaseWord.exists_cons rfl rfl
        (.bare hd _ : Boundary [] _)
    | labelled m =>
      have clear : Text.Clear (· == 'c')
          (separatorChars m.behind ++ (numberChars m.number ++ s.devText)) := by
        apply clear_behind m
        · intro b
          cases b <;> rfl
        · intro c hc
          rw [beq_eq_false_iff_ne]
          rintro rfl
          cases hc
        · apply s.devText_boundary.clear (by simp) _ rfl
          intro b
          cases b <;> rfl
      rw [postMarkText, PostMark.chars, labelled?, dropSeparator_mark postLabels_lists,
        label?_postWord m.label clear]

theorem readPre_text (h : s.Settled) : readPre s.preText = (s.version.pre, s.postText) := by
  cases hp : s.pre with
  | none =>
    have text : s.preText = s.postText := by rw [Spelling.preText, hp]; rfl
    rw [readPre, text, labelled?_phase_postText]
    simp [Spelling.version, hp]
  | some m =>
    have text : s.preText = m.chars PhaseWord.chars ++ s.postText := by
      rw [Spelling.preText, hp]
      rfl
    rw [readPre, text, labelled?_chars phaseLabels_lists (h.pre m hp) (postText_joins s)]
    simp [Spelling.version, hp]

theorem readPost_text (h : s.Settled) : readPost s.postText = (s.version.post, s.devText) := by
  cases hp : s.post with
  | none =>
    have text : s.postText = s.devText := by rw [Spelling.postText, hp]; rfl
    have clear : ∀ cs, s.devText = '-' :: cs → Text.Clear Char.isDigit cs := by
      intro cs hcs
      obtain ⟨m, _, rfl⟩ := Spelling.devText_eq_cons (b := .hyphen) hcs
      exact (Mark.boundary DevWord.exists_cons _ _).clear_isDigit (by simp)
    have no_label : labelled? postLabels s.devText = none :=
      labelled?_eq_none postLabels_lists PostWord.exists_cons rfl rfl s.devText_boundary
    rw [text, readPost_of_clear clear, no_label]
    simp [Spelling.version, hp]
  | some p =>
    rw [Spelling.postText, hp, postMarkText]
    cases p with
    | bare d =>
      rw [PostMark.chars, List.cons_append,
        readPost_bare d (s.devText_boundary.clear_isDigit (by simp))]
      simp [Spelling.version, hp, PostMark.value]
    | labelled m =>
      have clear : ∀ cs, m.chars PostWord.chars ++ s.devText = '-' :: cs →
          Text.Clear Char.isDigit cs := by
        intro cs hcs
        rw [Mark.chars_eq_cons PostWord.exists_cons (by decide) (s := .hyphen) hcs]
        exact (Mark.boundary PostWord.exists_cons _ _).clear_isDigit (by simp)
      have no_join : Text.Clear joins s.devText := by
        apply s.devText_boundary.clear (by simp [joins]) _ rfl
        intro b
        cases b <;> rfl
      rw [PostMark.chars, readPost_of_clear clear,
        labelled?_chars postLabels_lists (h.post m hp) no_join]
      simp [Spelling.version, hp, PostMark.value]

theorem readDev_text (h : s.Settled) : readDev s.devText = (s.version.dev, s.localText) := by
  cases hd : s.dev with
  | none =>
    have text : s.devText = s.localText := by rw [Spelling.devText, hd]; rfl
    have no_label : labelled? devLabels s.localText = none :=
      labelled?_eq_none devLabels_lists DevWord.exists_cons rfl rfl s.localText_boundary
    rw [readDev, text, no_label]
    simp [Spelling.version, hd]
  | some m =>
    have text : s.devText = m.chars DevWord.chars ++ s.localText := by
      rw [Spelling.devText, hd]
      rfl
    have no_join : Text.Clear joins s.localText :=
      s.localText_boundary.clear (by simp) (by intro b; cases b <;> rfl) rfl
    rw [readDev, text, labelled?_chars devLabels_lists (h.dev m hd) no_join]
    simp [Spelling.version, hd]

end

/-! ## The local part -/

theorem localPart_chars (r : LocalRun) : localPart r.chars = r.part := rfl

theorem not_isSeparator_of_run (r : LocalRun) : ∀ c ∈ r.chars, isSeparator c = false := by
  intro c hc
  rcases r.isAlphanum c hc with h | h
  · cases hs : isSeparator c with
    | false => rfl
    | true =>
      obtain ⟨b, rfl⟩ := isSeparator_iff.1 hs
      cases b <;> cases h
  · exact not_isSeparator_of_isLower h

theorem splitOnP_chars (l : LocalRuns) :
    l.chars.splitOnP isSeparator = l.runs.map LocalRun.chars := by
  obtain ⟨first, others⟩ := l
  induction others generalizing first with
  | nil =>
    have text : LocalRuns.chars ⟨first, []⟩ = first.chars := by simp [LocalRuns.chars]
    rw [text, List.splitOnP_eq_singleton (not_isSeparator_of_run first)]
    rfl
  | cons x xs ih =>
    obtain ⟨b, r⟩ := x
    have text : LocalRuns.chars ⟨first, (b, r) :: xs⟩ =
        first.chars ++ b.char :: LocalRuns.chars ⟨r, xs⟩ := by
      simp [LocalRuns.chars]
    rw [text, List.splitOnP_append_cons _ _ (isSeparator_iff.2 ⟨b, rfl⟩),
      List.splitOnP_eq_singleton (not_isSeparator_of_run first), ih]
    rfl

/-- What lies between the separators, if it is all letters and digits, spells local parts. -/
theorem exists_runs {n : Nat} {cs : List Char} (hn : cs.length ≤ n)
    (h : ∀ p ∈ cs.splitOnP isSeparator, p ≠ [] ∧ ∀ c ∈ p, c.isDigit = true ∨ c.isLower = true) :
    ∃ l : LocalRuns, l.chars = cs := by
  induction n generalizing cs with
  | zero =>
    obtain rfl := List.length_eq_zero_iff.1 (Nat.le_zero.1 hn)
    exact absurd rfl (h [] (by simp)).1
  | succ n ih =>
    let front := cs.takeWhile fun c => !isSeparator c
    have hfront : ∀ c ∈ front, isSeparator c = false := by
      intro c hc
      simpa using List.all_eq_true.1 List.all_takeWhile c hc
    have split : cs = front ++ cs.dropWhile fun c => !isSeparator c :=
      List.takeWhile_append_dropWhile.symm
    cases hd : cs.dropWhile fun c => !isSeparator c with
    | nil =>
      rw [hd, List.append_nil] at split
      have only : cs.splitOnP isSeparator = [cs] :=
        List.splitOnP_eq_singleton (split ▸ hfront)
      obtain ⟨hne, alphanum⟩ := h cs (by simp [only])
      exact ⟨⟨⟨cs, hne, alphanum⟩, []⟩, by simp [LocalRuns.chars]⟩
    | cons c rest =>
      have hc : isSeparator c = true := by
        have := Text.clear_dropWhile (fun c => !isSeparator c) cs c (by rw [hd]; rfl)
        simpa using this
      obtain ⟨b, rfl⟩ := isSeparator_iff.1 hc
      rw [hd] at split
      have pieces : cs.splitOnP isSeparator = front :: rest.splitOnP isSeparator := by
        rw [split, List.splitOnP_append_cons _ _ hc, List.splitOnP_eq_singleton hfront]
        rfl
      have shorter : rest.length ≤ n := by
        have := congrArg List.length split
        simp only [List.length_append, List.length_cons] at this
        omega
      obtain ⟨hne, alphanum⟩ := h front (by simp [pieces])
      obtain ⟨l, rfl⟩ := ih shorter fun p hp => h p (by simp [pieces, hp])
      refine ⟨⟨⟨front, hne, alphanum⟩, (b, l.first) :: l.others⟩, ?_⟩
      rw [split]
      simp [LocalRuns.chars]

theorem readLocal?_text (s : Spelling) : readLocal? s.localText = some s.version.localParts := by
  unfold Spelling.localText
  cases hl : s.localRuns with
  | none => simp [localMarkText, readLocal?, Spelling.version, hl]
  | some l =>
    have written : ((l.runs.map LocalRun.chars).all fun p =>
        !p.isEmpty && p.all fun c => c.isDigit || c.isLower) = true := by
      simp only [List.all_map, List.all_eq_true, Function.comp_apply, Bool.and_eq_true,
        Bool.not_eq_true', List.isEmpty_eq_false_iff, Bool.or_eq_true]
      exact fun r _ => ⟨r.ne_nil, r.isAlphanum⟩
    have parts : (l.runs.map LocalRun.chars).map localPart = l.parts := by
      simp [LocalRuns.parts, localPart_chars]
    simp only [localMarkText, readLocal?, splitOnP_chars, written, if_true, parts,
      Spelling.version, hl, Option.map_some]

theorem exists_local {t : List Char} {parts : Option (List LocalPart)}
    (h : readLocal? t = some parts) : ∃ l : Option LocalRuns,
      t = localMarkText l ∧ l.map LocalRuns.parts = parts := by
  unfold readLocal? at h
  split at h
  · exact ⟨none, rfl, Option.some.inj h⟩
  · next cs =>
    simp only at h
    split at h
    · next written =>
      simp only [List.all_eq_true, Bool.and_eq_true, Bool.not_eq_true',
        List.isEmpty_eq_false_iff, Bool.or_eq_true] at written
      obtain ⟨l, rfl⟩ := exists_runs (Nat.le_refl _) written
      refine ⟨some l, rfl, ?_⟩
      rw [← Option.some.inj h, splitOnP_chars, List.map_map]
      simp [LocalRuns.parts, Function.comp_def, localPart_chars]
    · cases h
  · cases h

/-! ## The whole text -/

/-- The reading of a text behind its `v`, if it has one. -/
theorem ofChars?_eq {t u : List Char} (h : t = 'v' :: u ∨ t = u ∧ u.head? ≠ some 'v') :
    ofChars? t = do
      let (release, r) ← readRelease? (readEpoch u).2
      let localParts ← readLocal? (readDev (readPost (readPre r).2).2).2
      return {
        epoch := (readEpoch u).1
        release
        pre := (readPre r).1
        post := (readPost (readPre r).2).1
        dev := (readDev (readPost (readPre r).2).2).1
        localParts } := by
  rcases h with rfl | ⟨rfl, hv⟩
  · rfl
  · unfold ofChars?
    split
    · exact absurd rfl hv
    · rfl

/-- A text without its `v` starts with a digit. -/
theorem head_epochText_ne (s : Spelling) : s.epochText.head? ≠ some 'v' := by
  obtain ⟨d, rest, h⟩ : ∃ (d : Digits) (rest : List Char), s.epochText = d.chars ++ rest := by
    unfold Spelling.epochText epochMarkText
    split
    · exact ⟨s.release, _, rfl⟩
    · next e _ => exact ⟨e, _, rfl⟩
  obtain ⟨c, cs, hc, hd⟩ := d.exists_cons
  rw [h, hc]
  intro hv
  obtain rfl : c = 'v' := Option.some.inj hv
  cases hd

theorem ofChars?_chars {s : Spelling} (h : s.Settled) : ofChars? s.chars = some s.version := by
  have mark : s.chars = 'v' :: s.epochText ∨
      s.chars = s.epochText ∧ s.epochText.head? ≠ some 'v' := by
    unfold Spelling.chars
    split
    · exact .inl rfl
    · exact .inr ⟨rfl, head_epochText_ne s⟩
  simp only [ofChars?_eq mark, readEpoch_text, readRelease?_text, Option.bind_eq_bind,
    Option.bind_some, readPre_text h, readPost_text h, readDev_text h, readLocal?_text]
  rfl

theorem exists_mark_before (t : List Char) : ∃ (marked : Bool) (u : List Char),
    t = (if marked then 'v' :: u else u) ∧ (t = 'v' :: u ∨ t = u ∧ u.head? ≠ some 'v') := by
  by_cases h : t.head? = some 'v'
  · obtain ⟨u, rfl⟩ := List.head?_eq_some_iff.1 h
    exact ⟨true, u, rfl, .inl rfl⟩
  · exact ⟨false, t, rfl, .inr ⟨rfl, h⟩⟩

theorem exists_spelling {t : List Char} {v : Version} (h : ofChars? t = some v) :
    ∃ s : Spelling, s.chars = t ∧ s.Settled ∧ s.version = v := by
  obtain ⟨marked, u, text, mark⟩ := exists_mark_before t
  rw [ofChars?_eq mark] at h
  obtain ⟨⟨release, r⟩, hrelease, h⟩ := Option.bind_eq_some_iff.1 h
  obtain ⟨parts, hlocal, h⟩ := Option.bind_eq_some_iff.1 h
  obtain ⟨epoch, hepoch, epochValue⟩ := exists_epoch u
  obtain ⟨first, segments, hsegments, rfl⟩ := exists_release hrelease
  obtain ⟨pre, hpre, preValue, preTakes⟩ := exists_pre r
  obtain ⟨post, hpost, postValue, postTakes⟩ := exists_post (readPre r).2
  obtain ⟨dev, hdev, devValue, devTakes⟩ := exists_dev (readPost (readPre r).2).2
  obtain ⟨runs, hruns, rfl⟩ := exists_local hlocal
  let s : Spelling := ⟨marked, epoch, first, segments, pre, post, dev, runs⟩
  have localText : s.localText = (readDev (readPost (readPre r).2).2).2 := hruns.symm
  have devText : s.devText = (readPost (readPre r).2).2 := by
    rw [hdev, ← localText]
    rfl
  have postText : s.postText = (readPre r).2 := by
    rw [hpost, ← devText]
    rfl
  have preText : s.preText = r := by
    rw [hpre, ← postText]
    rfl
  have epochText : s.epochText = u := by
    rw [hepoch, hsegments, ← preText]
    rfl
  have settled : s.Settled := by
    refine ⟨?_, ?_, ?_⟩
    · rw [postText]
      exact preTakes
    · rw [devText]
      exact postTakes
    · rw [localText]
      exact devTakes
  refine ⟨s, ?_, settled, ?_⟩
  · rw [text, ← epochText]
    rfl
  · rw [← Option.some.inj h, ← epochValue, ← preValue, ← postValue, ← devValue]
    rfl

/-- **The texts that are read are those of the grammar, and each has one reading.** A version is
read from a text just if the text has a spelling; the version is that of the spelling in which each
label has taken the separator and the digits behind it. -/
theorem parse?_reads_grammar (text : String) :
    ((parse? text).isSome = true ↔ ∃ s : Spelling, s.Writes text) ∧
      ∀ v, parse? text = some v ↔ ∃ s : Spelling, s.Writes text ∧ s.Settled ∧ s.version = v := by
  have reads : ∀ v, parse? text = some v ↔
      ∃ s : Spelling, s.Writes text ∧ s.Settled ∧ s.version = v := by
    intro v
    constructor
    · intro h
      obtain ⟨s, hs, settled, hv⟩ := exists_spelling h
      exact ⟨s, hs.symm, settled, hv⟩
    · rintro ⟨s, hs, settled, rfl⟩
      rw [parse?, hs]
      exact ofChars?_chars settled
  refine ⟨?_, reads⟩
  constructor
  · intro h
    obtain ⟨v, hv⟩ := Option.isSome_iff_exists.1 h
    obtain ⟨s, hs, _⟩ := (reads v).1 hv
    exact ⟨s, hs⟩
  · rintro ⟨s, hs⟩
    obtain ⟨t, ht, settled⟩ := s.exists_settled
    have read : parse? text = some t.version := (reads _).2 ⟨t, hs.trans ht.symm, settled, rfl⟩
    rw [read]
    rfl

/-- The `-1` belongs to the alpha, though it could be a post-release. -/
example : parse? " 1.0A-1 " = some { release := [1, 0], pre := some ⟨.alpha, 1⟩ } := by
  decide +kernel

end DepClause.Version
