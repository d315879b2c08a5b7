import DepClause.Text.Blank
import DepClause.Text.Split

/-!
# Cuts of a text

Where `takeWhile` and `dropWhile` stop, what the classes of characters have in common, and texts
that trimming or splitting leaves whole.
-/

namespace DepClause.Text

/-- A text in front of which `p` fails; the empty text is one. -/
def Clear {α : Type} (p : α → Bool) (s : List α) : Prop := ∀ c ∈ s.head?, p c = false

theorem clear_nil {α : Type} (p : α → Bool) : Clear p [] := by
  simp [Clear]

theorem clear_cons {α : Type} {p : α → Bool} {c : α} (cs : List α) (h : p c = false) :
    Clear p (c :: cs) := by
  simpa [Clear] using h

theorem Clear.takeWhile {α : Type} {p : α → Bool} {s : List α} (h : Clear p s) :
    s.takeWhile p = [] := by
  cases s with
  | nil => rfl
  | cons c cs => simp [h c rfl]

theorem Clear.dropWhile {α : Type} {p : α → Bool} {s : List α} (h : Clear p s) :
    s.dropWhile p = s := by
  cases s with
  | nil => rfl
  | cons c cs => simp [h c rfl]

theorem clear_dropWhile {α : Type} (p : α → Bool) (s : List α) : Clear p (s.dropWhile p) := by
  intro c hc
  have := List.head?_dropWhile_not p s
  simp_all

theorem takeWhile_append {α : Type} {p : α → Bool} {front rest : List α}
    (hf : ∀ c ∈ front, p c = true) (hr : Clear p rest) :
    (front ++ rest).takeWhile p = front := by
  rw [List.takeWhile_append_of_pos hf, hr.takeWhile, List.append_nil]

theorem dropWhile_append {α : Type} {p : α → Bool} {front rest : List α}
    (hf : ∀ c ∈ front, p c = true) (hr : Clear p rest) :
    (front ++ rest).dropWhile p = rest := by
  rw [List.dropWhile_append_of_pos hf, hr.dropWhile]

/-- Two ways to cut a text where `p` stops to hold are the same. -/
theorem append_inj_of_clear {α : Type} {p : α → Bool} {s t x y : List α}
    (hs : ∀ c ∈ s, p c = true) (ht : ∀ c ∈ t, p c = true) (hx : Clear p x) (hy : Clear p y)
    (h : s ++ x = t ++ y) : s = t ∧ x = y := by
  constructor
  · rw [← takeWhile_append hs hx, h, takeWhile_append ht hy]
  · rw [← dropWhile_append hs hx, h, dropWhile_append ht hy]

theorem mem_dropWhile {α : Type} {p : α → Bool} {s : List α} {a : α} (h : a ∈ s)
    (ha : p a = false) : a ∈ s.dropWhile p := by
  rw [← List.takeWhile_append_dropWhile (p := p) (l := s), List.mem_append] at h
  rcases h with h | h
  · have := List.all_eq_true.1 List.all_takeWhile a h
    rw [ha] at this
    cases this
  · exact h

/-! ## Classes of characters -/

theorem isDigit_iff {c : Char} : c.isDigit = true ↔ 48 ≤ c.toNat ∧ c.toNat ≤ 57 := by
  show (decide ('0'.val ≤ c.val) && decide (c.val ≤ '9'.val)) = true ↔ _
  rw [Bool.and_eq_true, decide_eq_true_eq, decide_eq_true_eq]
  exact and_congr UInt32.le_iff_toNat_le UInt32.le_iff_toNat_le

theorem isUpper_iff {c : Char} : c.isUpper = true ↔ 65 ≤ c.toNat ∧ c.toNat ≤ 90 := by
  show decide ('A'.val ≤ c.val ∧ c.val ≤ 'Z'.val) = true ↔ _
  rw [decide_eq_true_eq]
  exact and_congr UInt32.le_iff_toNat_le UInt32.le_iff_toNat_le

theorem isLower_iff {c : Char} : c.isLower = true ↔ 97 ≤ c.toNat ∧ c.toNat ≤ 122 := by
  show (decide ('a'.val ≤ c.val) && decide (c.val ≤ 'z'.val)) = true ↔ _
  rw [Bool.and_eq_true, decide_eq_true_eq, decide_eq_true_eq]
  exact and_congr UInt32.le_iff_toNat_le UInt32.le_iff_toNat_le

theorem isAlpha_iff {c : Char} : c.isAlpha = true ↔ c.isUpper = true ∨ c.isLower = true := by
  show (c.isUpper || c.isLower) = true ↔ _
  exact Bool.or_eq_true_iff

theorem isAlphanum_iff {c : Char} : c.isAlphanum = true ↔ c.isAlpha = true ∨ c.isDigit = true := by
  show (c.isAlpha || c.isDigit) = true ↔ _
  exact Bool.or_eq_true_iff

theorem isAlpha_of_isLower {c : Char} (h : c.isLower = true) : c.isAlpha = true :=
  isAlpha_iff.2 (.inr h)

theorem isAlphanum_of_isAlpha {c : Char} (h : c.isAlpha = true) : c.isAlphanum = true :=
  isAlphanum_iff.2 (.inl h)

theorem isAlphanum_of_isDigit {c : Char} (h : c.isDigit = true) : c.isAlphanum = true :=
  isAlphanum_iff.2 (.inr h)

theorem isAlphanum_of_isLower {c : Char} (h : c.isLower = true) : c.isAlphanum = true :=
  isAlphanum_of_isAlpha (isAlpha_of_isLower h)

theorem not_isDigit_of_isAlpha {c : Char} (h : c.isAlpha = true) : c.isDigit = false := by
  rw [isAlpha_iff, isUpper_iff, isLower_iff] at h
  rw [Bool.eq_false_iff, Ne, isDigit_iff]
  omega

theorem toNat_lt_of_isAlphanum {c : Char} (h : c.isAlphanum = true) : c.toNat < 0x80 := by
  rw [isAlphanum_iff, isAlpha_iff, isUpper_iff, isLower_iff, isDigit_iff] at h
  omega

theorem not_isBlank_of_isAlphanum {c : Char} (h : c.isAlphanum = true) : isBlank c = false := by
  rw [isAlphanum_iff, isAlpha_iff, isUpper_iff, isLower_iff, isDigit_iff] at h
  simp only [isBlank, Bool.or_eq_false_iff, Bool.and_eq_false_iff, decide_eq_false_iff_not,
    beq_eq_false_iff_ne]
  omega

theorem toLower_of_not_isUpper {c : Char} (h : c.isUpper = false) : c.toLower = c := by
  apply dif_neg
  intro hc
  have upper : c.isUpper = true := isUpper_iff.2
    ⟨UInt32.le_iff_toNat_le.1 hc.1, UInt32.le_iff_toNat_le.1 hc.2⟩
  rw [h] at upper
  cases upper

/-! ## Whole texts -/

theorem trim_of_not_blank {s : List Char} (h : ∀ c ∈ s, isBlank c = false) : trim s = s := by
  have clear (t : List Char) (ht : ∀ c ∈ t, c ∈ s) : Clear isBlank t :=
    fun c hc => h c (ht c (List.mem_of_mem_head? hc))
  have hl : trimLeft s = s := (clear s fun _ hc => hc).dropWhile
  have hr : s.reverse.dropWhile isBlank = s.reverse :=
    (clear s.reverse fun _ hc => List.mem_reverse.1 hc).dropWhile
  rw [trim, hl, trimRight, hr, List.reverse_reverse]

theorem mem_trim {s : List Char} {c : Char} (h : c ∈ s) (hc : isBlank c = false) :
    c ∈ trim s := by
  have left : c ∈ trimLeft s := mem_dropWhile h hc
  rw [trim, trimRight, List.mem_reverse]
  exact mem_dropWhile (List.mem_reverse.2 left) hc

theorem splitFirst?_eq_none {sep : Char} {s : List Char} (h : sep ∉ s) :
    splitFirst? sep s = none := by
  induction s with
  | nil => rfl
  | cons c cs ih =>
    rw [List.mem_cons, not_or] at h
    rw [splitFirst?, if_neg (Ne.symm h.1), ih h.2]
    rfl

theorem splitFirst?_append_cons {sep : Char} {s : List Char} (h : sep ∉ s) (t : List Char) :
    splitFirst? sep (s ++ sep :: t) = some (s, t) := by
  induction s with
  | nil => exact if_pos rfl
  | cons c cs ih =>
    rw [List.mem_cons, not_or] at h
    rw [List.cons_append, splitFirst?, if_neg (Ne.symm h.1), ih h.2]
    rfl

theorem append_of_splitFirst? {sep : Char} {s before behind : List Char}
    (h : splitFirst? sep s = some (before, behind)) : s = before ++ sep :: behind := by
  induction s generalizing before with
  | nil => cases h
  | cons c cs ih =>
    rw [splitFirst?] at h
    split at h
    · next same =>
      cases h
      rw [same, List.nil_append]
    · obtain ⟨⟨front, rest⟩, cut, both⟩ := Option.map_eq_some_iff.1 h
      cases both
      rw [ih cut, List.cons_append]

theorem splitLast?_eq_none {sep : Char} {s : List Char} (h : sep ∉ s) :
    splitLast? sep s = none := by
  induction s with
  | nil => rfl
  | cons c cs ih =>
    rw [List.mem_cons, not_or] at h
    rw [splitLast?, ih h.2]
    exact if_neg (Ne.symm h.1)

theorem not_mem_of_mem_splitOn {sep : Char} {s l : List Char} (h : l ∈ s.splitOn sep) :
    sep ∉ l := by
  induction s generalizing l with
  | nil =>
    rw [List.splitOn_nil, List.mem_singleton] at h
    simp [h]
  | cons c s ih =>
    rw [List.splitOn_cons_eq_if_modifyHead] at h
    split at h
    · rcases List.mem_cons.1 h with rfl | h
      · exact List.not_mem_nil
      · exact ih h
    · rename_i other
      cases parts : s.splitOn sep with
      | nil => exact absurd parts (List.splitOn_ne_nil sep s)
      | cons k ks =>
        rw [parts, List.modifyHead_cons] at h
        rcases List.mem_cons.1 h with rfl | h
        · have rest : sep ∉ k := ih (parts ▸ List.mem_cons_self)
          have first : sep ≠ c := fun eq => other (by simpa using eq.symm)
          exact fun mem => (List.mem_cons.1 mem).elim first rest
        · exact ih (parts ▸ List.mem_cons_of_mem k h)

/-- Items with a separator between them, written with a separator before each but the first. -/
theorem intercalate_cons {α : Type} (sep x : List α) (xs : List (List α)) :
    sep.intercalate (x :: xs) = x ++ xs.flatMap (sep ++ ·) := by
  induction xs generalizing x with
  | nil => simp
  | cons y ys ih => simp [List.intercalate_cons_cons, ih y]

theorem mem_intercalate {α : Type} {sep a : α} {ls : List (List α)}
    (h : a ∈ [sep].intercalate ls) : a = sep ∨ ∃ l ∈ ls, a ∈ l := by
  induction ls with
  | nil => simp at h
  | cons l ls ih =>
    cases ls with
    | nil => simp_all
    | cons m ms =>
      rw [List.intercalate_cons_cons] at h
      simp only [List.mem_append, List.mem_singleton] at h ih
      rcases h with (h | h) | h
      · exact .inr ⟨l, List.mem_cons_self, h⟩
      · exact .inl h
      · rcases ih h with h | ⟨k, hk, ha⟩
        · exact .inl h
        · exact .inr ⟨k, List.mem_cons_of_mem l hk, ha⟩

end DepClause.Text
