import DepClause.Proofs.Label.Runs
import DepClause.Version.Printer

/-!
# The runs of a written text

What each piece of a label becomes when the label is cut into runs again. A number or a word is one
run where the next character does not go on with it. `front_induction` takes a text apart into such
pieces.
-/

namespace DepClause.Label

theorem runs_congr {a b : List Char} (h : skipSeparators a = skipSeparators b) :
    runs a = runs b := by
  cases hb : lead (skipSeparators b) with
  | tilde => rw [runs_of_tilde hb, runs_of_tilde (h ▸ hb), h]
  | stop => rw [runs_of_stop hb, runs_of_stop (h ▸ hb)]
  | caret => rw [runs_of_caret hb, runs_of_caret (h ▸ hb), h]
  | letter => rw [runs_of_letter hb, runs_of_letter (h ▸ hb), h]
  | digit => rw [runs_of_digit hb, runs_of_digit (h ▸ hb), h]

theorem runs_nil : runs [] = [.stop] := runs_of_stop rfl

theorem runs_tilde (s : List Char) : runs ('~' :: s) = .tilde :: runs s := runs_of_tilde rfl

theorem runs_caret (s : List Char) : runs ('^' :: s) = .caret :: runs s := runs_of_caret rfl

theorem runs_separator {c : Char} (h : separates c = true) (s : List Char) :
    runs (c :: s) = runs s :=
  runs_congr (by simp [skipSeparators, h])

theorem runs_point (s : List Char) : runs ('.' :: s) = runs s := runs_separator rfl s

theorem skipSeparators_of_alphanum {c : Char} (s : List Char) (h : c.isAlphanum = true) :
    skipSeparators (c :: s) = c :: s := by
  simp [skipSeparators, separates, h]

theorem lead_of_digit {c : Char} (s : List Char) (h : c.isDigit = true) :
    lead (c :: s) = .digit := by
  have ht : c ≠ '~' := by rintro rfl; simp at h
  have hc : c ≠ '^' := by rintro rfl; simp at h
  simp [lead, ht, hc, h]

theorem lead_of_alpha {c : Char} (s : List Char) (h : c.isAlpha = true) :
    lead (c :: s) = .letter := by
  have ht : c ≠ '~' := by rintro rfl; simp at h
  have hc : c ≠ '^' := by rintro rfl; simp at h
  simp [lead, ht, hc, Text.not_isDigit_of_isAlpha h]

theorem runs_digits {ds rest : List Char} (hne : ds ≠ []) (hd : ∀ c ∈ ds, c.isDigit = true)
    (hr : Text.Clear Char.isDigit rest) :
    runs (ds ++ rest) = .number (Nat.ofDigitChars 10 ds 0) :: runs rest := by
  obtain ⟨d, ds, rfl⟩ := List.exists_cons_of_ne_nil hne
  have hd0 : d.isDigit = true := hd d List.mem_cons_self
  have skip : skipSeparators (d :: ds ++ rest) = d :: ds ++ rest :=
    skipSeparators_of_alphanum _ (Text.isAlphanum_of_isDigit hd0)
  rw [runs_of_digit (by rw [skip]; exact lead_of_digit _ hd0), skip, digitRun,
    Text.takeWhile_append hd hr]
  simp only [List.cons_append, List.drop_succ_cons, List.drop_zero]
  rw [Text.dropWhile_append (fun c hc => hd c (List.mem_cons_of_mem d hc)) hr]

theorem runs_letters {ls rest : List Char} (hne : ls ≠ []) (hl : ∀ c ∈ ls, c.isAlpha = true)
    (hr : Text.Clear Char.isAlpha rest) :
    runs (ls ++ rest) = .letters (ls.map Char.toNat) :: runs rest := by
  obtain ⟨l, ls, rfl⟩ := List.exists_cons_of_ne_nil hne
  have hl0 : l.isAlpha = true := hl l List.mem_cons_self
  have skip : skipSeparators (l :: ls ++ rest) = l :: ls ++ rest :=
    skipSeparators_of_alphanum _ (Text.isAlphanum_of_isAlpha hl0)
  rw [runs_of_letter (by rw [skip]; exact lead_of_alpha _ hl0), skip, letterRun,
    Text.takeWhile_append hl hr]
  simp only [List.cons_append, List.drop_succ_cons, List.drop_zero]
  rw [Text.dropWhile_append (fun c hc => hl c (List.mem_cons_of_mem l hc)) hr]

/-- A text is empty or starts with a separator, a tilde, a caret, a letter run or a digit run. -/
@[elab_as_elim]
theorem front_induction {motive : List Char → Prop} (nil : motive [])
    (separator : ∀ c s, separates c = true → motive s → motive (c :: s))
    (tilde : ∀ s, motive s → motive ('~' :: s))
    (caret : ∀ s, motive s → motive ('^' :: s))
    (letters : ∀ ls s, ls ≠ [] → (∀ c ∈ ls, c.isAlpha = true) → Text.Clear Char.isAlpha s →
      motive s → motive (ls ++ s))
    (digits : ∀ ds s, ds ≠ [] → (∀ c ∈ ds, c.isDigit = true) → Text.Clear Char.isDigit s →
      motive s → motive (ds ++ s))
    (a : List Char) : motive a := by
  induction h : a.length using Nat.strongRecOn generalizing a with
  | ind k ih =>
    cases a with
    | nil => exact nil
    | cons c cs =>
      subst h
      have rest : motive cs := ih _ (Nat.lt_succ_self _) cs rfl
      have behind (p : Char → Bool) (hc : p c = true) :
          (c :: cs).takeWhile p ≠ [] ∧ (∀ d ∈ (c :: cs).takeWhile p, p d = true) ∧
            Text.Clear p ((c :: cs).dropWhile p) ∧ motive ((c :: cs).dropWhile p) := by
        refine ⟨by simp [hc], List.all_eq_true.1 List.all_takeWhile, Text.clear_dropWhile p _, ?_⟩
        refine ih _ ?_ _ rfl
        rw [List.dropWhile_cons_of_pos hc]
        exact Nat.lt_succ_of_le (Text.length_dropWhile_le p cs)
      by_cases ht : c = '~'
      · exact ht ▸ tilde cs rest
      by_cases hcaret : c = '^'
      · exact hcaret ▸ caret cs rest
      cases ha : c.isAlpha with
      | true =>
        obtain ⟨hne, hp, clear, hm⟩ := behind Char.isAlpha ha
        rw [← List.takeWhile_append_dropWhile (p := Char.isAlpha) (l := c :: cs)]
        exact letters _ _ hne hp clear hm
      | false =>
        cases hd : c.isDigit with
        | true =>
          obtain ⟨hne, hp, clear, hm⟩ := behind Char.isDigit hd
          rw [← List.takeWhile_append_dropWhile (p := Char.isDigit) (l := c :: cs)]
          exact digits _ _ hne hp clear hm
        | false =>
          refine separator c cs ?_ rest
          simp [separates, Char.isAlphanum, ha, hd, ht, hcaret]

end DepClause.Label

namespace DepClause

theorem isDigit_of_mem_numeral {n : Nat} {c : Char} (h : c ∈ numeral n) : c.isDigit = true :=
  Nat.isDigit_of_mem_toDigits (by decide) (by decide) h

theorem numeral_ne_nil (n : Nat) : numeral n ≠ [] := Nat.toDigits_ne_nil

theorem ofDigitChars_numeral (n : Nat) : Nat.ofDigitChars 10 (numeral n) 0 = n :=
  Nat.ofDigitChars_ten_toDigits

theorem Label.runs_numeral (n : Nat) {rest : List Char} (hr : Text.Clear Char.isDigit rest) :
    runs (numeral n ++ rest) = .number n :: runs rest := by
  rw [runs_digits (numeral_ne_nil n) (fun _ hc => isDigit_of_mem_numeral hc) hr,
    ofDigitChars_numeral]

/-- A numeral goes on with no letter run. -/
theorem clear_isAlpha_numeral (n : Nat) (rest : List Char) :
    Text.Clear Char.isAlpha (numeral n ++ rest) := by
  obtain ⟨d, ds, h⟩ := List.exists_cons_of_ne_nil (numeral_ne_nil n)
  have hd : d.isDigit = true := isDigit_of_mem_numeral (n := n) (h ▸ List.mem_cons_self)
  rw [h]
  apply Text.clear_cons
  cases ha : d.isAlpha with
  | false => rfl
  | true => simp [Text.not_isDigit_of_isAlpha ha] at hd

/-- A word and the number behind it. -/
theorem Label.runs_word_numeral {ls rest : List Char} (n : Nat) (hne : ls ≠ [])
    (hl : ls.all Char.isAlpha = true) (hr : Text.Clear Char.isDigit rest) :
    runs (ls ++ (numeral n ++ rest)) =
      .letters (ls.map Char.toNat) :: .number n :: runs rest := by
  rw [runs_letters hne (List.all_eq_true.1 hl) (clear_isAlpha_numeral n rest), runs_numeral n hr]

/-- The numbers of a release. -/
theorem Label.runs_releaseChars {ns : List Nat} {rest : List Char} (hne : ns ≠ [])
    (hr : Text.Clear Char.isDigit rest) :
    runs (releaseChars ns ++ rest) = ns.map .number ++ runs rest := by
  induction ns with
  | nil => exact absurd rfl hne
  | cons n ns ih =>
    cases ns with
    | nil => simpa [releaseChars] using runs_numeral n hr
    | cons m ms =>
      have hp : releaseChars (n :: m :: ms) ++ rest =
          numeral n ++ ('.' :: (releaseChars (m :: ms) ++ rest)) := by
        simp [releaseChars, List.intercalate_cons_cons]
      rw [hp, runs_numeral n (Text.clear_cons _ rfl), runs_point, ih (by simp)]
      rfl

end DepClause
