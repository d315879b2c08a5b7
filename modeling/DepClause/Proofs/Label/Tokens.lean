import Mathlib
import DepClause.Proofs.Label.RunOrder
import DepClause.Proofs.Label.Spelling

/-!
# The tokens of a label

What a label consists of, said apart from the walk that compares two of them. A text falls into
maximal runs of letters, maximal runs of digits, and single other characters, of which only tildes
and carets count. `tokens` reads these pieces, digits as numbers, and closes the row by a token for
the end of the text; `runs_eq_tokens` finds them to be what the walk takes off the text.
-/

namespace DepClause.Label

/-- Whether two neighbours belong to one run: both are letters or both are digits. -/
def joins (c d : Char) : Bool := c.isAlpha && d.isAlpha || c.isDigit && d.isDigit

/-- The tokens of a text as they are written. -/
def pieces (a : List Char) : List (List Char) :=
  (a.splitBy joins).filter fun piece => !piece.all separates

def Run.ofPiece (piece : List Char) : Run :=
  if piece = ['~'] then .tilde
  else if piece = ['^'] then .caret
  else if piece.all Char.isDigit then .number (Nat.ofDigitChars 10 piece 0)
  else .letters (piece.map Char.toNat)

/-- The tokens of a text, closed by one for its end. -/
def tokens (a : List Char) : List Run := (pieces a).map Run.ofPiece ++ [.stop]

def dropZeros (piece : List Char) : List Char := piece.dropWhile (· == '0')

/-- Tokens from the lowest to the highest: tilde, end, caret, letter runs, numbers. -/
def Run.grade : Run → Unit ⊕ₗ Unit ⊕ₗ Unit ⊕ₗ List ℕ ⊕ₗ ℕ
  | .tilde => toLex (.inl ())
  | .stop => toLex (.inr (toLex (.inl ())))
  | .caret => toLex (.inr (toLex (.inr (toLex (.inl ())))))
  | .letters ls => toLex (.inr (toLex (.inr (toLex (.inr (toLex (.inl ls)))))))
  | .number n => toLex (.inr (toLex (.inr (toLex (.inr (toLex (.inr n)))))))

/-! ## Pieces -/

theorem not_isAlphanum_of_separates {c : Char} (h : separates c = true) :
    c.isAlphanum = false := by
  simp only [separates, Bool.not_eq_true', Bool.or_eq_false_iff] at h
  exact h.1.1

section
variable {front rest : List Char}

theorem pieces_append (hne : front ≠ []) (chain : front.IsChain fun c d => joins c d)
    (apart : ∀ c ∈ front.getLast?, ∀ d ∈ rest.head?, joins c d = false) :
    pieces (front ++ rest) = if front.all separates then pieces rest else front :: pieces rest := by
  rw [pieces, List.splitBy_append apart, List.splitBy_of_isChain hne chain, List.singleton_append,
    List.filter_cons]
  cases front.all separates <;> rfl

/-- A character that is no letter and no digit is a piece of its own. -/
theorem pieces_cons {c : Char} (h : c.isAlphanum = false) (s : List Char) :
    pieces (c :: s) = if separates c then pieces s else [c] :: pieces s := by
  obtain ⟨alpha, digit⟩ := Bool.or_eq_false_iff.1 h
  have apart : ∀ d, joins c d = false := by simp [joins, alpha, digit]
  have split : pieces ([c] ++ s) =
      if [c].all separates then pieces s else [c] :: pieces s :=
    pieces_append (List.cons_ne_nil c []) (List.isChain_singleton c)
      (by simpa using fun d _ => apart d)
  simpa using split

/-- A run of letters, or of digits, is one piece. -/
theorem pieces_run {p : Char → Bool} (hne : front ≠ []) (hp : ∀ c ∈ front, p c = true)
    (hr : Text.Clear p rest) (alphanum : ∀ c, p c = true → c.isAlphanum = true)
    (same : ∀ c d, p c = true → joins c d = p d) : pieces (front ++ rest) = front :: pieces rest := by
  have chain : front.IsChain fun c d => joins c d := by
    refine (List.pairwise_of_forall_mem_list fun c hc d hd => ?_).isChain
    rw [same c d (hp c hc)]
    exact hp d hd
  have kept : front.all separates = false := by
    obtain ⟨c, hc⟩ := List.exists_mem_of_ne_nil front hne
    exact List.all_eq_false.2 ⟨c, hc, by simp [separates, alphanum c (hp c hc)]⟩
  rw [pieces_append hne chain ?_, kept]
  · rfl
  · intro c hc d hd
    rw [same c d (hp c (List.mem_of_mem_getLast? hc))]
    exact hr d hd

theorem pieces_letters (hne : front ≠ []) (hl : ∀ c ∈ front, c.isAlpha = true)
    (hr : Text.Clear Char.isAlpha rest) : pieces (front ++ rest) = front :: pieces rest := by
  refine pieces_run hne hl hr (fun _ => Text.isAlphanum_of_isAlpha) fun c d hc => ?_
  simp [joins, hc, Text.not_isDigit_of_isAlpha hc]

theorem pieces_digits (hne : front ≠ []) (hd : ∀ c ∈ front, c.isDigit = true)
    (hr : Text.Clear Char.isDigit rest) : pieces (front ++ rest) = front :: pieces rest := by
  refine pieces_run hne hd hr (fun _ => Text.isAlphanum_of_isDigit) fun c d hc => ?_
  have letter : c.isAlpha = false := by
    cases ha : c.isAlpha with
    | false => rfl
    | true => simp [Text.not_isDigit_of_isAlpha ha] at hc
  simp [joins, hc, letter]

end

/-! ## Tokens -/

theorem Run.ofPiece_letters {ls : List Char} (hne : ls ≠ []) (hl : ∀ c ∈ ls, c.isAlpha = true) :
    ofPiece ls = .letters (ls.map Char.toNat) := by
  obtain ⟨l, ls, rfl⟩ := List.exists_cons_of_ne_nil hne
  have letter : l.isAlpha = true := hl l List.mem_cons_self
  have tilde : l ≠ '~' := by rintro rfl; cases letter
  have caret : l ≠ '^' := by rintro rfl; cases letter
  simp [ofPiece, tilde, caret, Text.not_isDigit_of_isAlpha letter]

theorem Run.ofPiece_digits {ds : List Char} (hne : ds ≠ []) (hd : ∀ c ∈ ds, c.isDigit = true) :
    ofPiece ds = .number (Nat.ofDigitChars 10 ds 0) := by
  have tilde : ds ≠ ['~'] := by rintro rfl; simp at hd
  have caret : ds ≠ ['^'] := by rintro rfl; simp at hd
  rw [ofPiece, if_neg tilde, if_neg caret, if_pos (List.all_eq_true.2 hd)]

/-- What the walk along a text takes off it, one after the other. -/
theorem runs_eq_tokens (a : List Char) : runs a = tokens a := by
  induction a using front_induction with
  | nil => exact runs_nil
  | separator c s hc ih =>
    rw [runs_separator hc, ih, tokens, tokens, pieces_cons (not_isAlphanum_of_separates hc),
      if_pos hc]
  | tilde s ih =>
    rw [runs_tilde, ih, tokens, tokens, pieces_cons rfl]
    rfl
  | caret s ih =>
    rw [runs_caret, ih, tokens, tokens, pieces_cons rfl]
    rfl
  | letters ls s hne hl clear ih =>
    rw [runs_letters hne hl clear, ih, tokens, tokens, pieces_letters hne hl clear, List.map_cons,
      Run.ofPiece_letters hne hl]
    rfl
  | digits ds s hne hd clear ih =>
    rw [runs_digits hne hd clear, ih, tokens, tokens, pieces_digits hne hd clear, List.map_cons,
      Run.ofPiece_digits hne hd]
    rfl

theorem Run.compares_grade (r s : Run) : (r.compare s).Compares r.grade s.grade := by
  have up {α β : Type} [LinearOrder α] [LinearOrder β] {o : Ordering} {a b : β}
      (h : o.Compares a b) : o.Compares (toLex (.inr a) : α ⊕ₗ β) (toLex (.inr b)) :=
    Sum.Lex.inr_strictMono.compares.2 h
  have low {α β : Type} [LinearOrder α] [LinearOrder β] (a : α) (b : β) :
      (toLex (.inl a) : α ⊕ₗ β) < toLex (.inr b) := Sum.Lex.inl_lt_inr a b
  cases r with
  | tilde =>
    cases s with
    | tilde => rfl
    | _ => exact low _ _
  | stop =>
    cases s with
    | tilde => exact low _ _
    | stop => rfl
    | _ => exact up (low _ _)
  | caret =>
    cases s with
    | tilde => exact low _ _
    | stop => exact up (low _ _)
    | caret => rfl
    | _ => exact up (up (low _ _))
  | letters v =>
    cases s with
    | tilde => exact low _ _
    | stop => exact up (low _ _)
    | caret => exact up (up (low _ _))
    | letters w => exact up (up (up (Sum.Lex.inl_strictMono.compares.2 (compares_list v w))))
    | number n => exact up (up (up (low _ _)))
  | number m =>
    cases s with
    | tilde => exact low _ _
    | stop => exact up (low _ _)
    | caret => exact up (up (low _ _))
    | letters w => exact up (up (up (low _ _)))
    | number n => exact up (up (up (up (compares_compare m n))))

/-! ## Leading zeros -/

theorem ofDigitChars_dropZeros (ds : List Char) :
    Nat.ofDigitChars 10 (dropZeros ds) 0 = Nat.ofDigitChars 10 ds 0 := by
  induction ds with
  | nil => rfl
  | cons d ds ih =>
    by_cases hd : d = '0'
    · subst hd
      rw [Nat.ofDigitChars_cons]
      exact ih
    · rw [dropZeros, List.dropWhile_cons_of_neg (by simpa using hd)]

theorem numeral_digit {d : Char} (h : d.isDigit = true) : numeral (d.toNat - '0'.toNat) = [d] := by
  obtain ⟨low, high⟩ := Text.isDigit_iff.1 h
  have small : d.toNat - 48 < 10 := by omega
  have digit : (Nat.digitChar (d.toNat - 48)).toNat = d.toNat := by
    rw [Nat.toNat_digitChar_of_lt_ten small]
    omega
  rw [numeral]
  exact (Nat.toDigits_of_lt_base small).trans (congrArg (· :: []) (Char.toNat_inj.1 digit))

/-- Digits behind a number are the last digits of a longer one. -/
theorem numeral_append {n : ℕ} (hn : 0 < n) {ds : List Char}
    (hd : ∀ c ∈ ds, c.isDigit = true) : numeral n ++ ds = numeral (Nat.ofDigitChars 10 ds n) := by
  induction ds generalizing n with
  | nil => simp
  | cons d ds ih =>
    have digit : d.isDigit = true := hd d List.mem_cons_self
    have small : d.toNat - '0'.toNat < 10 := by
      have := Text.isDigit_iff.1 digit
      have : '0'.toNat = 48 := rfl
      omega
    calc
      numeral n ++ d :: ds = (numeral n ++ numeral (d.toNat - '0'.toNat)) ++ ds := by
        rw [numeral_digit digit, List.append_assoc]
        rfl
      _ = numeral (10 * n + (d.toNat - '0'.toNat)) ++ ds :=
        congrArg (· ++ ds) (Nat.toDigits_append_toDigits (by decide) hn small)
      _ = numeral (Nat.ofDigitChars 10 (d :: ds) n) := by
        rw [ih (by omega) fun c hc => hd c (List.mem_cons_of_mem d hc), Nat.ofDigitChars_cons]

/-- Without its leading zeros a run of digits is the numeral of its value. -/
theorem dropZeros_digits {ds : List Char} (hd : ∀ c ∈ ds, c.isDigit = true) :
    dropZeros ds =
      if Nat.ofDigitChars 10 ds 0 = 0 then [] else numeral (Nat.ofDigitChars 10 ds 0) := by
  have sub : ∀ c ∈ dropZeros ds, c.isDigit = true :=
    fun c hc => hd c (List.dropWhile_sublist _ |>.subset hc)
  have clear : Text.Clear (· == '0') (dropZeros ds) := Text.clear_dropWhile _ ds
  rw [← ofDigitChars_dropZeros]
  generalize dropZeros ds = es at sub clear ⊢
  cases es with
  | nil => rfl
  | cons e es =>
    have positive : 0 < e.toNat - '0'.toNat := by
      have := Text.isDigit_iff.1 (sub e List.mem_cons_self)
      have : '0'.toNat = 48 := rfl
      have : e.toNat ≠ '0'.toNat := fun he => by simpa [Char.toNat_inj.1 he] using clear e rfl
      omega
    have written := numeral_append positive fun c hc => sub c (List.mem_cons_of_mem e hc)
    rw [numeral_digit (sub e List.mem_cons_self)] at written
    have value : Nat.ofDigitChars 10 (e :: es) 0 = Nat.ofDigitChars 10 es (e.toNat - '0'.toNat) := by
      rw [Nat.ofDigitChars_cons, Nat.mul_zero, Nat.zero_add]
    have more : 0 < Nat.ofDigitChars 10 es (e.toNat - '0'.toNat) := by
      rw [Nat.ofDigitChars_eq_ofDigitChars_zero]
      exact Nat.add_pos_left (Nat.mul_pos (Nat.pow_pos (by decide)) positive) _
    rw [value, if_neg more.ne', ← written]
    rfl

/-- The four shapes that a piece has. -/
inductive IsPiece : List Char → Prop where
  | tilde : IsPiece ['~']
  | caret : IsPiece ['^']
  | letters {ls : List Char} (hne : ls ≠ []) (hl : ∀ c ∈ ls, c.isAlpha = true) : IsPiece ls
  | digits {ds : List Char} (hne : ds ≠ []) (hd : ∀ c ∈ ds, c.isDigit = true) : IsPiece ds

theorem isPiece_of_mem {a piece : List Char} (h : piece ∈ pieces a) : IsPiece piece := by
  induction a using front_induction with
  | nil => cases h
  | separator c s hc ih =>
    rw [pieces_cons (not_isAlphanum_of_separates hc), if_pos hc] at h
    exact ih h
  | tilde s ih =>
    rw [pieces_cons rfl] at h
    rcases List.mem_cons.1 h with rfl | h
    · exact .tilde
    · exact ih h
  | caret s ih =>
    rw [pieces_cons rfl] at h
    rcases List.mem_cons.1 h with rfl | h
    · exact .caret
    · exact ih h
  | letters ls s hne hl clear ih =>
    rw [pieces_letters hne hl clear] at h
    rcases List.mem_cons.1 h with rfl | h
    · exact .letters hne hl
    · exact ih h
  | digits ds s hne hd clear ih =>
    rw [pieces_digits hne hd clear] at h
    rcases List.mem_cons.1 h with rfl | h
    · exact .digits hne hd
    · exact ih h

theorem dropZeros_letters {ls : List Char} (hl : ∀ c ∈ ls, c.isAlpha = true) :
    dropZeros ls = ls := by
  refine Text.Clear.dropWhile fun c hc => ?_
  have letter := hl c (List.mem_of_mem_head? hc)
  simp only [beq_eq_false_iff_ne]
  rintro rfl
  cases letter

/-- A token, written without leading zeros. -/
def Run.written : Run → List Char
  | .tilde => ['~']
  | .caret => ['^']
  | .stop => []
  | .letters ls => ls.map Char.ofNat
  | .number n => if n = 0 then [] else numeral n

theorem written_ofPiece {piece : List Char} (h : IsPiece piece) :
    (Run.ofPiece piece).written = dropZeros piece := by
  cases h with
  | tilde => rfl
  | caret => rfl
  | letters hne hl =>
    rw [Run.ofPiece_letters hne hl, dropZeros_letters hl, Run.written, List.map_map]
    simp [Function.comp_def]
  | digits hne hd => rw [Run.ofPiece_digits hne hd, dropZeros_digits hd, Run.written]

theorem ofPiece_dropZeros {piece : List Char} (h : IsPiece piece) :
    Run.ofPiece (dropZeros piece) = Run.ofPiece piece := by
  cases h with
  | tilde => rfl
  | caret => rfl
  | letters hne hl => rw [dropZeros_letters hl]
  | digits hne hd =>
    rw [Run.ofPiece_digits hne hd, ← ofDigitChars_dropZeros]
    by_cases hz : dropZeros piece = []
    · rw [hz]
      rfl
    · exact Run.ofPiece_digits hz fun c hc => hd c (List.dropWhile_sublist _ |>.subset hc)

/-- Tokens are read off the pieces without leading zeros, and these off the tokens. -/
theorem tokens_eq_iff (a b : List Char) :
    tokens a = tokens b ↔ (pieces a).map dropZeros = (pieces b).map dropZeros := by
  have back (s : List Char) : ((pieces s).map Run.ofPiece).map Run.written =
      (pieces s).map dropZeros := by
    rw [List.map_map]
    exact List.map_congr_left fun _ h => written_ofPiece (isPiece_of_mem h)
  have forth (s : List Char) : ((pieces s).map dropZeros).map Run.ofPiece =
      (pieces s).map Run.ofPiece := by
    rw [List.map_map]
    exact List.map_congr_left fun _ h => ofPiece_dropZeros (isPiece_of_mem h)
  rw [tokens, tokens, List.append_left_inj]
  constructor
  · intro h
    rw [← back, ← back, h]
  · intro h
    rw [← forth, ← forth, h]

theorem Run.grade_injective : Function.Injective Run.grade := by
  intro r s h
  cases r <;> cases s <;> simp_all [grade]

/-- **Version texts of labels compare by their tokens.** The walk along two texts ends on all of
them, since each of its rounds takes a run off both. Its result turns round with its sides, is
transitive, and is equality just for texts with the same pieces up to leading zeros. -/
theorem texts_compare_by_tokens (a b c : List Char) :
    compareVersions a b = cmp ((tokens a).map Run.grade) ((tokens b).map Run.grade) ∧
      compareVersions a b = (compareVersions b a).swap ∧
      ((compareVersions a b).isLE → (compareVersions b c).isLE → (compareVersions a c).isLE) ∧
      (compareVersions a b = .eq ↔ (pieces a).map dropZeros = (pieces b).map dropZeros) := by
  have grades : (compareVersions a b).Compares ((tokens a).map Run.grade)
      ((tokens b).map Run.grade) := by
    rw [compareVersions_eq, runs_eq_tokens, runs_eq_tokens]
    exact compares_map Run.compares_grade (tokens a) (tokens b)
  refine ⟨grades.cmp_eq.symm, Std.OrientedCmp.eq_swap, Std.TransCmp.isLE_trans, ?_⟩
  rw [grades.eq_eq, List.map_inj_right (fun _ _ h => Run.grade_injective h), tokens_eq_iff]

/-- Neither zeros nor separators make a difference, a caret at the end does. -/
theorem texts_compare_by_tokens_of_zeros :
    pieces "1.00".toList = [['1'], ['0', '0']] ∧
      pieces ".01+0-".toList = [['0', '1'], ['0']] ∧
      compareVersions "1.00".toList ".01+0-".toList = .eq ∧
      compareVersions ".01+0-".toList "1.0^".toList = .lt ∧
      (compareVersions "1.00".toList "1.0^".toList).isLE := by
  obtain ⟨_, _, trans, same⟩ :=
    texts_compare_by_tokens "1.00".toList ".01+0-".toList "1.0^".toList
  have equal : compareVersions "1.00".toList ".01+0-".toList = .eq := same.2 (by decide)
  have less : compareVersions ".01+0-".toList "1.0^".toList = .lt := by cbv
  exact ⟨by decide, by decide, equal, less, trans (by rw [equal]; rfl) (by rw [less]; rfl)⟩

end DepClause.Label
