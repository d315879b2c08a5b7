import DepClause.Proofs.Text

/-!
# Trimming

The two ends of a text are trimmed independently, trimming at an end stops at the first character
that is no blank, and blanks that are put at an end go away again. The parts of a text that is cut
at separators are the same, once they are trimmed, as those of the trimmed text.
-/

namespace DepClause.Text

def Blank (s : List Char) : Prop := ∀ c ∈ s, isBlank c = true

instance (s : List Char) : Decidable (Blank s) :=
  decidable_of_iff (s.all isBlank = true) List.all_eq_true

theorem blank_nil : Blank [] := by
  intro c hc
  cases hc

theorem Blank.append {s t : List Char} (hs : Blank s) (ht : Blank t) : Blank (s ++ t) := by
  intro c hc
  rcases List.mem_append.1 hc with hc | hc
  · exact hs c hc
  · exact ht c hc

theorem exists_blank_front (s : List Char) :
    ∃ front, Blank front ∧ s = front ++ trimLeft s := by
  refine ⟨s.takeWhile isBlank, List.all_eq_true.1 List.all_takeWhile, ?_⟩
  exact List.takeWhile_append_dropWhile.symm

theorem exists_blank_end (s : List Char) :
    ∃ behind, Blank behind ∧ s = trimRight s ++ behind := by
  obtain ⟨front, hf, whole⟩ := exists_blank_front s.reverse
  refine ⟨front.reverse, fun c hc => hf c (List.mem_reverse.1 hc), ?_⟩
  have turned := congrArg List.reverse whole
  rw [List.reverse_reverse, List.reverse_append] at turned
  exact turned

/-- A text is blank or has a first character that is not. -/
theorem blank_or_exists (s : List Char) :
    Blank s ∨ ∃ front c rest, s = front ++ c :: rest ∧ Blank front ∧ isBlank c = false := by
  obtain ⟨front, hf, whole⟩ := exists_blank_front s
  cases hd : trimLeft s with
  | nil =>
    rw [hd, List.append_nil] at whole
    rw [whole]
    exact .inl hf
  | cons c rest =>
    have hc : isBlank c = false := clear_dropWhile isBlank s c (by rw [← trimLeft, hd]; rfl)
    rw [hd] at whole
    exact .inr ⟨front, c, rest, whole, hf, hc⟩

theorem trimLeft_blank_append {front : List Char} (h : Blank front) (s : List Char) :
    trimLeft (front ++ s) = trimLeft s :=
  List.dropWhile_append_of_pos h

theorem trimLeft_of_blank {s : List Char} (h : Blank s) : trimLeft s = [] := by
  have whole := trimLeft_blank_append h []
  rw [List.append_nil] at whole
  exact whole

theorem trimLeft_cons {c : Char} (hc : isBlank c = false) (s : List Char) :
    trimLeft (c :: s) = c :: s :=
  (clear_cons s hc).dropWhile

theorem trimRight_append_cons {c : Char} (hc : isBlank c = false) (front rest : List Char) :
    trimRight (front ++ c :: rest) = front ++ c :: trimRight rest := by
  have stop : (c :: front.reverse).dropWhile isBlank = c :: front.reverse :=
    (clear_cons _ hc).dropWhile
  rw [trimRight, trimRight, List.reverse_append, List.reverse_cons, List.append_assoc,
    List.singleton_append, List.dropWhile_append, stop]
  split
  · next h =>
    rw [List.isEmpty_iff.1 h]
    simp
  · simp

/-- Where a text with blanks behind it is cut in front of a character that is none, the blanks stay
together. -/
theorem exists_of_append_blank {cs rest s behind : List Char} {c : Char}
    (hc : isBlank c = false) (hb : Blank behind) (h : s ++ behind = cs ++ c :: rest) :
    ∃ t, s = cs ++ c :: t ∧ rest = t ++ behind := by
  have kept : c ∉ behind := by
    intro mem
    rw [hb c mem] at hc
    cases hc
  rcases List.append_eq_append_iff.1 h with ⟨t, rfl, rfl⟩ | ⟨t, rfl, ht⟩
  · exact absurd (List.mem_append_right t List.mem_cons_self) kept
  · cases t with
    | nil =>
      rw [List.nil_append] at ht
      exact absurd (ht ▸ List.mem_cons_self) kept
    | cons d t =>
      obtain ⟨rfl, rfl⟩ := List.cons.inj ht
      exact ⟨t, rfl, rfl⟩

theorem trimRight_append_blank {behind : List Char} (h : Blank behind) (s : List Char) :
    trimRight (s ++ behind) = trimRight s := by
  have blank : ∀ c ∈ behind.reverse, isBlank c = true := fun c hc => h c (List.mem_reverse.1 hc)
  rw [trimRight, List.reverse_append, List.dropWhile_append_of_pos blank, trimRight]

theorem trimRight_of_blank {s : List Char} (h : Blank s) : trimRight s = [] := by
  have whole := trimRight_append_blank h []
  rw [List.nil_append] at whole
  exact whole

theorem trimLeft_trimRight (s : List Char) : trimLeft (trimRight s) = trim s := by
  rcases blank_or_exists s with h | ⟨front, c, rest, rfl, hf, hc⟩
  · rw [trim, trimRight_of_blank h, trimLeft_of_blank h]
    rfl
  · rw [trim, trimRight_append_cons hc, trimLeft_blank_append hf, trimLeft_blank_append hf,
      trimLeft_cons hc, trimLeft_cons hc]
    exact (trimRight_append_cons hc [] rest).symm

theorem trim_blank_append {front : List Char} (h : Blank front) (s : List Char) :
    trim (front ++ s) = trim s := by
  rw [trim, trimLeft_blank_append h, trim]

theorem trim_append_blank {behind : List Char} (h : Blank behind) (s : List Char) :
    trim (s ++ behind) = trim s := by
  rw [← trimLeft_trimRight, trimRight_append_blank h, trimLeft_trimRight]

/-- What trimming takes away is blank. -/
theorem exists_blank_ends (s : List Char) :
    ∃ front behind, Blank front ∧ Blank behind ∧ s = front ++ trim s ++ behind := by
  obtain ⟨front, hf, left⟩ := exists_blank_front s
  obtain ⟨behind, hb, right⟩ := exists_blank_end (trimLeft s)
  refine ⟨front, behind, hf, hb, ?_⟩
  rw [List.append_assoc, trim, ← right]
  exact left

theorem trim_infix (s : List Char) : trim s <:+: s := by
  obtain ⟨front, behind, -, -, whole⟩ := exists_blank_ends s
  exact ⟨front, behind, whole.symm⟩

theorem mem_of_mem_trim {s : List Char} {c : Char} (h : c ∈ trim s) : c ∈ s := by
  obtain ⟨front, behind, _, _, whole⟩ := exists_blank_ends s
  rw [whole]
  exact List.mem_append_left behind (List.mem_append_right front h)

theorem trim_trimLeft (s : List Char) : trim (trimLeft s) = trim s := by
  obtain ⟨front, hf, whole⟩ := exists_blank_front s
  have trimmed := congrArg trim whole
  rw [trim_blank_append hf] at trimmed
  exact trimmed.symm

theorem trim_trimRight (s : List Char) : trim (trimRight s) = trim s := by
  obtain ⟨behind, hb, whole⟩ := exists_blank_end s
  have trimmed := congrArg trim whole
  rw [trim_append_blank hb] at trimmed
  exact trimmed.symm

theorem trim_trim (s : List Char) : trim (trim s) = trim s := by
  rw [trim.eq_def s, trim_trimRight, trim_trimLeft]
  rfl

theorem trim_cons {c : Char} (hc : isBlank c = false) (s : List Char) :
    trim (c :: s) = c :: trimRight s := by
  rw [trim, trimLeft_cons hc]
  exact trimRight_append_cons hc [] s

/-- A character that is no blank splits what is trimmed off. -/
theorem trim_append_cons {c : Char} (hc : isBlank c = false) (s t : List Char) :
    trim (s ++ c :: t) = trimLeft s ++ c :: trimRight t := by
  rcases blank_or_exists s with hs | ⟨front, d, rest, rfl, hf, hd⟩
  · rw [trim_blank_append hs, trim_cons hc, trimLeft_of_blank hs, List.nil_append]
  · rw [trim, List.append_assoc, List.cons_append, trimLeft_blank_append hf,
      trimLeft_blank_append hf, trimLeft_cons hd, trimLeft_cons hd, ← List.cons_append,
      trimRight_append_cons hc]

/-! ## Where a text starts -/

/-- A text of blanks, or one that starts with one of some characters, up to blanks. -/
def OpensWith (cs s : List Char) : Prop :=
  Blank s ∨ ∃ front c rest, s = front ++ c :: rest ∧ Blank front ∧ c ∈ cs

section
variable {cs s t : List Char}

theorem opensWith_cons {c : Char} (hc : c ∈ cs) (s : List Char) : OpensWith cs (c :: s) :=
  .inr ⟨[], c, s, rfl, blank_nil, hc⟩

theorem OpensWith.mono {ds : List Char} (h : OpensWith cs s) (hd : ∀ c ∈ cs, c ∈ ds) :
    OpensWith ds s := by
  rcases h with blank | ⟨front, c, rest, whole, hf, hc⟩
  · exact .inl blank
  · exact .inr ⟨front, c, rest, whole, hf, hd c hc⟩

theorem OpensWith.append (hs : OpensWith cs s) (ht : OpensWith cs t) : OpensWith cs (s ++ t) := by
  rcases hs with blank | ⟨front, c, rest, rfl, hf, hc⟩
  · rcases ht with behind | ⟨front, c, rest, rfl, hf, hc⟩
    · exact .inl (blank.append behind)
    · refine .inr ⟨s ++ front, c, rest, ?_, blank.append hf, hc⟩
      rw [List.append_assoc]
  · refine .inr ⟨front, c, rest ++ t, ?_, hf, hc⟩
    rw [List.append_assoc, List.cons_append]

theorem not_of_all {p : Char → Bool} (h : cs.all (!p ·) = true) {c : Char} (hc : c ∈ cs) :
    p c = false := by
  rw [← Bool.not_eq_true']
  exact List.all_eq_true.1 h c hc

theorem OpensWith.trimRight (h : OpensWith cs s) (visible : cs.all (!isBlank ·) = true) :
    OpensWith cs (trimRight s) := by
  rcases h with blank | ⟨front, c, rest, rfl, hf, hc⟩
  · rw [trimRight_of_blank blank]
    exact .inl blank_nil
  · rw [trimRight_append_cons (not_of_all visible hc)]
    exact .inr ⟨front, c, _, rfl, hf, hc⟩

theorem OpensWith.head?_trim (h : OpensWith cs s) (visible : cs.all (!isBlank ·) = true)
    {c : Char} (hc : c ∉ cs) : (trim s).head? ≠ some c := by
  intro head
  rcases h with blank | ⟨front, d, rest, rfl, hf, hd⟩
  · rw [trim, trimLeft_of_blank blank] at head
    cases head
  · rw [trim_blank_append hf, trim_cons (not_of_all visible hd)] at head
    obtain rfl := Option.some.inj head
    exact hc hd

theorem OpensWith.clear (h : OpensWith cs s) {p : Char → Bool}
    (hb : ∀ c, isBlank c = true → p c = false) (hp : cs.all (!p ·) = true) : Clear p s := by
  intro c hc
  rcases h with blank | ⟨front, d, rest, rfl, hf, hd⟩
  · exact hb c (blank c (List.mem_of_mem_head? hc))
  · cases front with
    | nil =>
      obtain rfl := Option.some.inj hc
      exact not_of_all hp hd
    | cons e es =>
      obtain rfl := Option.some.inj hc
      exact hb e (hf e List.mem_cons_self)

end

/-! ## Trimmed parts -/

variable {sep : Char}

theorem Blank.not_mem {s : List Char} (h : Blank s) (hsep : isBlank sep = false) : sep ∉ s := by
  intro mem
  rw [h sep mem] at hsep
  cases hsep

theorem map_trim_splitOn_blank_append (hsep : isBlank sep = false) {front : List Char}
    (h : Blank front) (s : List Char) :
    ((front ++ s).splitOn sep).map trim = (s.splitOn sep).map trim := by
  by_cases hs : sep ∈ s
  · obtain ⟨first, rest, rfl, hfirst⟩ := List.eq_append_cons_of_mem hs
    have whole : sep ∉ front ++ first := by
      simp [h.not_mem hsep, hfirst]
    rw [← List.append_assoc, List.splitOn_append_cons_self, List.splitOn_append_cons_self,
      List.splitOn_eq_singleton whole, List.splitOn_eq_singleton hfirst, List.map_append,
      List.map_append, List.map_singleton, List.map_singleton, trim_blank_append h]
  · have whole : sep ∉ front ++ s := by
      simp [h.not_mem hsep, hs]
    rw [List.splitOn_eq_singleton whole, List.splitOn_eq_singleton hs, List.map_singleton,
      List.map_singleton, trim_blank_append h]

theorem map_trim_splitOn_append_blank (hsep : isBlank sep = false) {behind : List Char}
    (h : Blank behind) (s : List Char) :
    ((s ++ behind).splitOn sep).map trim = (s.splitOn sep).map trim := by
  by_cases hs : sep ∈ s
  · obtain ⟨first, rest, parts, _⟩ := List.eq_append_cons_of_mem hs
    have shorter : rest.length < s.length := by
      rw [parts, List.length_append, List.length_cons]
      omega
    rw [parts, List.append_assoc, List.cons_append, List.splitOn_append_cons_self,
      List.splitOn_append_cons_self, List.map_append, List.map_append,
      map_trim_splitOn_append_blank hsep h rest]
  · have whole : sep ∉ s ++ behind := by
      simp [h.not_mem hsep, hs]
    rw [List.splitOn_eq_singleton whole, List.splitOn_eq_singleton hs, List.map_singleton,
      List.map_singleton, trim_append_blank h]
termination_by s.length

theorem map_trim_splitOn_trim (hsep : isBlank sep = false) (s : List Char) :
    ((trim s).splitOn sep).map trim = (s.splitOn sep).map trim := by
  obtain ⟨front, behind, hf, hb, whole⟩ := exists_blank_ends s
  rw [← map_trim_splitOn_blank_append hsep hf, ← map_trim_splitOn_append_blank hsep hb, ← whole]

/-- Where a text starts, up to blanks, with a character that separates nothing, so does one of its
trimmed parts. -/
theorem exists_mem_map_trim_splitOn {c : Char} (hc : isBlank c = false) (hsep : sep ≠ c)
    {front : List Char} (hf : Blank front) (hb : isBlank sep = false) (rest : List Char) :
    ∃ t, c :: t ∈ ((front ++ c :: rest).splitOn sep).map trim := by
  rw [map_trim_splitOn_blank_append hb hf]
  by_cases hr : sep ∈ rest
  · obtain ⟨first, more, rfl, hfirst⟩ := List.eq_append_cons_of_mem hr
    have whole : sep ∉ c :: first := by
      simp [hsep, hfirst]
    refine ⟨trimRight first, ?_⟩
    rw [← List.cons_append, List.splitOn_append_cons_self, List.splitOn_eq_singleton whole,
      List.map_append, List.map_singleton, trim_cons hc]
    exact List.mem_cons_self
  · have whole : sep ∉ c :: rest := by
      simp [hsep, hr]
    refine ⟨trimRight rest, ?_⟩
    rw [List.splitOn_eq_singleton whole, List.map_singleton, trim_cons hc]
    exact List.mem_cons_self

end DepClause.Text
