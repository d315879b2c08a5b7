import DepClause.Marker.Token
import DepClause.Proofs.Text.Trim

/-!
# The tokens of a marker text

`Lexes s ts` says that a text is a row of spelled tokens with blanks between them, where an operator
is the longest one that stands there and a word goes as far as its characters do. The tokens that
are cut from a text are those, and every position is one of the text.
-/

namespace DepClause.Marker

def IsWord (w : List Char) : Prop :=
  ∃ c cs, w = c :: cs ∧ startsWord c = true ∧ ∀ d ∈ cs, continuesWord d = true

/-- The characters of a token. A quoted text has the same quote at both ends and not inside. -/
inductive Token.Spelled : Token → List Char → Prop where
  | opening : Spelled .opening ['(']
  | closing : Spelled .closing [')']
  | text {q : Char} (hq : q = '"' ∨ q = '\'') {body : List Char} (h : q ∉ body) :
      Spelled (.text (String.ofList body)) (q :: (body ++ [q]))
  | operator (op : Comparator) : Spelled (.operator op) op.text.toList
  | and : Spelled .and ['a', 'n', 'd']
  | or : Spelled .or ['o', 'r']
  | isIn : Spelled .isIn ['i', 'n']
  | not : Spelled .not ['n', 'o', 't']
  | word {w : List Char} (h : IsWord w) (hk : String.ofList w ∉ ["and", "or", "in", "not"]) :
      Spelled (.word (String.ofList w)) w

/-- What follows a token does not go on with it: no longer operator stands there, and a word has
taken all of its characters. -/
def Token.Stops : Token → List Char → Prop
  | .operator op, rest => ∀ other : Comparator,
      other.text.toList <+: op.text.toList ++ rest → other.text.length ≤ op.text.length
  | .opening, _ | .closing, _ | .text _, _ => True
  | _, rest => Text.Clear continuesWord rest

inductive Lexes : List Char → List Token → Prop where
  | nil : Lexes [] []
  | blank {c : Char} {cs : List Char} {ts : List Token} (hc : Text.isBlank c = true)
      (h : Lexes cs ts) : Lexes (c :: cs) ts
  | token {t : Token} {chars rest : List Char} {ts : List Token} (spelled : t.Spelled chars)
      (stops : t.Stops rest) (h : Lexes rest ts) : Lexes (chars ++ rest) (t :: ts)

/-! ## Operators -/

theorem head_ne_of_stops {op longer : Comparator} {rest : List Char} {c : Char}
    (h : (Token.operator op).Stops rest) (hl : op.text.toList ++ [c] = longer.text.toList) :
    rest.head? ≠ some c := by
  intro head
  obtain ⟨cs, rfl⟩ := List.head?_eq_some_iff.1 head
  have short : longer.text.length ≤ op.text.length := by
    apply h longer
    rw [← hl]
    exact ⟨cs, by simp⟩
  have long := congrArg List.length hl
  simp only [List.length_append, List.length_singleton, String.length_toList] at long
  omega

/-- An operator is found where no longer one stands. -/
theorem front?_of_stops {op : Comparator} {rest : List Char}
    (h : (Token.operator op).Stops rest) :
    Comparator.front? (op.text.toList ++ rest) = some (op, rest) := by
  have apart (longer : Comparator) (hl : op.text.toList ++ ['='] = longer.text.toList) :
      rest = [] ∨ ∃ c cs, rest = c :: cs ∧ '=' ≠ c := by
    cases rest with
    | nil => exact .inl rfl
    | cons c cs =>
      refine .inr ⟨c, cs, rfl, ?_⟩
      rintro rfl
      exact head_ne_of_stops h hl rfl
  cases op with
  | compatible | identical | notEqual | atMost | atLeast => rfl
  | equal =>
    obtain rfl | ⟨c, cs, rfl, hc⟩ := apart .identical rfl
    · rfl
    · simp [Comparator.front?, Comparator.all, Comparator.text, hc]
  | less =>
    obtain rfl | ⟨c, cs, rfl, hc⟩ := apart .atMost rfl
    · rfl
    · simp [Comparator.front?, Comparator.all, Comparator.text, hc]
  | greater =>
    obtain rfl | ⟨c, cs, rfl, hc⟩ := apart .atLeast rfl
    · rfl
    · simp [Comparator.front?, Comparator.all, Comparator.text, hc]

theorem exists_of_front? {s rest : List Char} {op : Comparator}
    (h : Comparator.front? s = some (op, rest)) : s = op.text.toList ++ rest := by
  obtain ⟨other, _, hop⟩ := List.exists_of_findSome?_eq_some h
  simp only at hop
  split at hop
  · next hp =>
    obtain ⟨u, rfl⟩ := List.isPrefixOf_iff_prefix.1 hp
    obtain ⟨rfl, hr⟩ := Prod.mk.inj (Option.some.inj hop)
    rw [← hr, List.drop_left]
  · cases hop

/-- The operator that is found is the longest one that stands there. -/
theorem stops_of_front? {s rest : List Char} {op : Comparator}
    (h : Comparator.front? s = some (op, rest)) : (Token.operator op).Stops rest := by
  obtain rfl := exists_of_front? h
  rintro other ⟨u, hu⟩
  rw [← hu] at h
  have found {found : Comparator} {v : List Char}
      (hf : Comparator.front? (other.text.toList ++ u) = some (found, v)) : op = found := by
    rw [h] at hf
    exact (Prod.mk.inj (Option.some.inj hf)).1
  cases other with
  | compatible | identical | notEqual | atMost | atLeast =>
    obtain rfl := found rfl
    exact Nat.le_refl _
  | less | greater => cases op <;> decide
  | equal =>
    cases op with
    | less => cases hu
    | greater => cases hu
    | _ => decide

theorem ne_of_startsWord {c d : Char} (h : startsWord c = true) (hd : startsWord d = false) :
    c ≠ d := by
  rintro rfl
  rw [hd] at h
  cases h

theorem front?_eq_none {c : Char} (cs : List Char) (h : startsWord c = true) :
    Comparator.front? (c :: cs) = none := by
  have tilde : '~' ≠ c := (ne_of_startsWord h rfl).symm
  have equals : '=' ≠ c := (ne_of_startsWord h rfl).symm
  have mark : '!' ≠ c := (ne_of_startsWord h rfl).symm
  have less : '<' ≠ c := (ne_of_startsWord h rfl).symm
  have greater : '>' ≠ c := (ne_of_startsWord h rfl).symm
  simp [Comparator.front?, Comparator.all, Comparator.text, tilde, equals, mark, less, greater]

/-! ## The token in front -/

theorem front_word {w rest : List Char} (h : IsWord w) (hr : Text.Clear continuesWord rest) :
    front (w ++ rest) = .ok (wordToken w, w.length) := by
  obtain ⟨c, cs, rfl, hc, hcs⟩ := h
  have opening : c ≠ '(' := ne_of_startsWord hc rfl
  have closing : c ≠ ')' := ne_of_startsWord hc rfl
  have double : c ≠ '"' := ne_of_startsWord hc rfl
  have single : c ≠ '\'' := ne_of_startsWord hc rfl
  simp [front, opening, closing, double, single, front?_eq_none, hc,
    Text.takeWhile_append hcs hr]

theorem front_text {q : Char} (hq : q = '"' ∨ q = '\'') {body : List Char} (h : q ∉ body)
    (rest : List Char) :
    front (q :: (body ++ q :: rest)) = .ok (.text (String.ofList body), body.length + 2) := by
  have inside : (body ++ q :: rest).takeWhile (· != q) = body := by
    apply Text.takeWhile_append
    · intro c hc
      rw [bne_iff_ne]
      rintro rfl
      exact h hc
    · exact Text.clear_cons rest (bne_self_eq_false q)
  rcases hq with rfl | rfl <;> simp [front, inside]

theorem front_operator {op : Comparator} {rest : List Char}
    (stops : (Token.operator op).Stops rest) :
    front (op.text.toList ++ rest) = .ok (.operator op, op.text.length) := by
  have found := front?_of_stops stops
  obtain ⟨c, cs, hc, quote⟩ : ∃ c cs, op.text.toList = c :: cs ∧
      c ∉ ['(', ')', '"', '\''] := by
    cases op <;> exact ⟨_, _, rfl, by decide⟩
  simp only [List.mem_cons, List.not_mem_nil, or_false, not_or] at quote
  rw [hc, List.cons_append] at found ⊢
  simp [front, quote, found]

theorem wordToken_of_not_keyword {w : List Char}
    (h : String.ofList w ∉ ["and", "or", "in", "not"]) : wordToken w = .word (String.ofList w) := by
  simp only [List.mem_cons, List.not_mem_nil, or_false, not_or] at h
  unfold wordToken
  split
  · next hw => exact absurd hw h.1
  · next hw => exact absurd hw h.2.1
  · next hw => exact absurd hw h.2.2.1
  · next hw => exact absurd hw h.2.2.2
  · rfl

theorem front_of_spelled {t : Token} {chars rest : List Char} (h : t.Spelled chars)
    (stops : t.Stops rest) : front (chars ++ rest) = .ok (t, chars.length) := by
  cases h with
  | opening => rfl
  | closing => rfl
  | @text q hq body h =>
    rw [List.cons_append, List.append_assoc, List.singleton_append, front_text hq h]
    simp
  | operator op => rw [front_operator stops, String.length_toList]
  | and => exact front_word ⟨'a', _, rfl, rfl, List.all_eq_true.1 rfl⟩ stops
  | or => exact front_word ⟨'o', _, rfl, rfl, List.all_eq_true.1 rfl⟩ stops
  | isIn => exact front_word ⟨'i', _, rfl, rfl, List.all_eq_true.1 rfl⟩ stops
  | not => exact front_word ⟨'n', _, rfl, rfl, List.all_eq_true.1 rfl⟩ stops
  | word h hk => rw [front_word h stops, wordToken_of_not_keyword hk]

theorem spelled_wordToken {w : List Char} (h : IsWord w) {rest : List Char}
    (hr : Text.Clear continuesWord rest) :
    (wordToken w).Spelled w ∧ (wordToken w).Stops rest := by
  have keyword {k : List Char} (hw : String.ofList w = String.ofList k) : w = k :=
    String.ofList_injective hw
  by_cases hk : String.ofList w ∈ ["and", "or", "in", "not"]
  · simp only [List.mem_cons, List.not_mem_nil, or_false] at hk
    rcases hk with hw | hw | hw | hw
    · obtain rfl : w = ['a', 'n', 'd'] := keyword hw
      exact ⟨.and, hr⟩
    · obtain rfl : w = ['o', 'r'] := keyword hw
      exact ⟨.or, hr⟩
    · obtain rfl : w = ['i', 'n'] := keyword hw
      exact ⟨.isIn, hr⟩
    · obtain rfl : w = ['n', 'o', 't'] := keyword hw
      exact ⟨.not, hr⟩
  · rw [wordToken_of_not_keyword hk]
    exact ⟨.word h hk, hr⟩

/-- A quote that a text goes up to stands behind it. -/
theorem exists_of_takeWhile_lt {q : Char} {cs : List Char}
    (h : (cs.takeWhile (· != q)).length < cs.length) :
    ∃ rest, cs = cs.takeWhile (· != q) ++ q :: rest ∧ q ∉ cs.takeWhile (· != q) := by
  have split : cs = cs.takeWhile (· != q) ++ cs.dropWhile (· != q) :=
    List.takeWhile_append_dropWhile.symm
  cases hd : cs.dropWhile (· != q) with
  | nil =>
    rw [hd, List.append_nil] at split
    rw [← split] at h
    exact absurd h (Nat.lt_irrefl _)
  | cons c rest =>
    have stop : (c != q) = false := Text.clear_dropWhile (· != q) cs c (by rw [hd]; rfl)
    obtain rfl := bne_eq_false_iff_eq.1 stop
    refine ⟨rest, ?_, ?_⟩
    · rw [← hd]
      exact split
    · intro hq
      have := List.all_eq_true.1 List.all_takeWhile c hq
      simp at this

theorem spelled_of_front {s : List Char} {t : Token} {n : Nat} (h : front s = .ok (t, n)) :
    ∃ chars rest, s = chars ++ rest ∧ chars.length = n ∧ t.Spelled chars ∧ t.Stops rest := by
  cases s with
  | nil => cases h
  | cons c cs =>
    by_cases opening : c = '('
    · subst opening
      cases h
      exact ⟨['('], cs, rfl, rfl, .opening, trivial⟩
    by_cases closing : c = ')'
    · subst closing
      cases h
      exact ⟨[')'], cs, rfl, rfl, .closing, trivial⟩
    by_cases quote : c = '"' ∨ c = '\''
    · by_cases closed : (cs.takeWhile (· != c)).length < cs.length
      · have text : front (c :: cs) = .ok (.text (String.ofList (cs.takeWhile (· != c))),
            (cs.takeWhile (· != c)).length + 2) := by
          simp [front, opening, closing, quote, closed]
        rw [text] at h
        cases h
        obtain ⟨rest, hcs, inside⟩ := exists_of_takeWhile_lt closed
        refine ⟨c :: (cs.takeWhile (· != c) ++ [c]), rest, ?_, ?_, .text quote inside, trivial⟩
        · rw [List.cons_append, List.append_assoc, List.singleton_append, ← hcs]
        · simp
      · have fault : front (c :: cs) = .error .openText := by
          simp [front, opening, closing, quote, closed]
        rw [fault] at h
        cases h
    cases hop : Comparator.front? (c :: cs) with
    | some x =>
      obtain ⟨op, rest⟩ := x
      have operator : front (c :: cs) = .ok (.operator op, op.text.length) := by
        simp [front, opening, closing, quote, hop]
      rw [operator] at h
      cases h
      exact ⟨op.text.toList, rest, exists_of_front? hop, String.length_toList, .operator op,
        stops_of_front? hop⟩
    | none =>
      by_cases hc : startsWord c = true
      · let word := c :: cs.takeWhile continuesWord
        have found : front (c :: cs) = .ok (wordToken word, word.length) := by
          simp [front, opening, closing, quote, hop, hc, word]
        rw [found] at h
        cases h
        have isWord : IsWord word := ⟨c, _, rfl, hc, List.all_eq_true.1 List.all_takeWhile⟩
        obtain ⟨spelled, stops⟩ :=
          spelled_wordToken isWord (Text.clear_dropWhile continuesWord cs)
        refine ⟨word, cs.dropWhile continuesWord, ?_, rfl, spelled, stops⟩
        rw [List.cons_append, List.takeWhile_append_dropWhile]
      · have fault : front (c :: cs) = .error (.character (Text.firstUnit c)) := by
          simp [front, opening, closing, quote, hop, hc]
        rw [fault] at h
        cases h

/-! ## The whole text -/

theorem tokensFrom_blank {c : Char} (hc : Text.isBlank c = true) (p : Nat) (cs : List Char) :
    tokensFrom p (c :: cs) = tokensFrom (p + Text.width [c]) cs := by
  rw [tokensFrom.eq_def]
  simp only [if_pos hc]

theorem continuesWord_of_startsWord {c : Char} (h : startsWord c = true) :
    continuesWord c = true := by
  simp only [startsWord, continuesWord, Bool.or_eq_true] at h ⊢
  exact .inl (h.imp_left Text.isAlphanum_of_isAlpha)

theorem not_isBlank_of_continuesWord {c : Char} (h : continuesWord c = true) :
    Text.isBlank c = false := by
  simp only [continuesWord, Bool.or_eq_true, beq_iff_eq] at h
  rcases h with (h | rfl) | rfl
  · exact Text.not_isBlank_of_isAlphanum h
  · rfl
  · rfl

theorem Token.Spelled.exists_cons {t : Token} {chars : List Char} (h : t.Spelled chars) :
    ∃ c cs, chars = c :: cs ∧ Text.isBlank c = false := by
  cases h with
  | text hq h =>
    refine ⟨_, _, rfl, ?_⟩
    rcases hq with rfl | rfl <;> rfl
  | operator op => cases op <;> exact ⟨_, _, rfl, rfl⟩
  | word h hk =>
    obtain ⟨c, cs, rfl, hc, _⟩ := h
    exact ⟨c, cs, rfl, not_isBlank_of_continuesWord (continuesWord_of_startsWord hc)⟩
  | _ => exact ⟨_, _, rfl, rfl⟩

theorem Lexes.spelled {s : List Char} {ts : List Token} (h : Lexes s ts) :
    ∀ t ∈ ts, ∃ chars, t.Spelled chars := by
  induction h with
  | nil => simp
  | blank _ _ ih => exact ih
  | token spelled _ _ ih =>
    intro t ht
    rcases List.mem_cons.1 ht with rfl | ht
    · exact ⟨_, spelled⟩
    · exact ih t ht

theorem tokensFrom_token {t : Token} {chars rest : List Char} {p : Nat} {ps : List Placed}
    (h : t.Spelled chars) (stops : t.Stops rest)
    (hr : tokensFrom (p + Text.width chars) rest = .ok ps) :
    tokensFrom p (chars ++ rest) = .ok (⟨t, p⟩ :: ps) := by
  have hf := front_of_spelled h stops
  obtain ⟨c, cs, rfl, hb⟩ := h.exists_cons
  rw [List.cons_append] at hf ⊢
  have kept : ¬Text.isBlank c = true := by simp [hb]
  rw [tokensFrom.eq_def]
  simp only [if_neg kept, hf]
  simp [hr]

theorem tokensFrom_of_lexes {s : List Char} {ts : List Token} (h : Lexes s ts) (p : Nat) :
    ∃ ps, tokensFrom p s = .ok ps ∧ ps.map Placed.token = ts := by
  induction h generalizing p with
  | nil => exact ⟨[], by rw [tokensFrom.eq_def], rfl⟩
  | blank hc _ ih =>
    rw [tokensFrom_blank hc]
    exact ih _
  | @token t chars rest ts spelled stops _ ih =>
    obtain ⟨ps, hps, rfl⟩ := ih (p + Text.width chars)
    exact ⟨⟨t, p⟩ :: ps, tokensFrom_token spelled stops hps, rfl⟩

theorem lexes_of_tokensFrom (p : Nat) (s : List Char) :
    ∀ ps, tokensFrom p s = .ok ps → Lexes s (ps.map Placed.token) := by
  fun_induction tokensFrom p s with
  | case1 p =>
    rintro _ ⟨rfl⟩
    exact .nil
  | case2 p c cs hc ih =>
    intro ps h
    exact .blank hc (ih ps h)
  | case3 p c cs hc fault hf =>
    intro ps h
    cases h
  | case4 p c cs hc t n hf taken e he ih =>
    intro ps h
    cases h
  | case5 p c cs hc t n hf taken ts hts ih =>
    rintro _ ⟨rfl⟩
    obtain ⟨chars, rest, hs, rfl, spelled, stops⟩ := spelled_of_front hf
    obtain ⟨d, ds, rfl, _⟩ := spelled.exists_cons
    have hrest : cs.drop ds.length = rest := by
      rw [(List.cons.inj hs).2]
      exact List.drop_left
    have lexes : Lexes rest (ts.map Placed.token) := hrest ▸ ih ts hts
    rw [hs]
    exact .token spelled stops lexes

/-- The last position that a result names. -/
def Within (last : Nat) : Except Fault (List Placed) → Prop
  | .ok ps => ∀ t ∈ ps, t.position ≤ last
  | .error (_, position) => position ≤ last

theorem Within.mono {m n : Nat} (h : m ≤ n) {r : Except Fault (List Placed)} (hr : Within m r) :
    Within n r := by
  cases r with
  | ok ps => exact fun t ht => Nat.le_trans (hr t ht) h
  | error e => exact Nat.le_trans hr h

theorem width_append (s t : List Char) : Text.width (s ++ t) = Text.width s + Text.width t := by
  simp [Text.width, Text.units]

/-- What is left behind a token lies in the text. -/
theorem position_after_le (p : Nat) (c : Char) (cs : List Char) (n : Nat) :
    p + Text.width ((c :: cs).take n) + Text.width (cs.drop (n - 1)) ≤
      p + Text.width (c :: cs) := by
  cases n with
  | zero =>
    have := width_append [c] cs
    simp only [List.singleton_append] at this
    simp only [List.take_zero, Nat.zero_sub, List.drop_zero]
    have : Text.width [] = 0 := rfl
    omega
  | succ n =>
    have := width_append ((c :: cs).take (n + 1)) ((c :: cs).drop (n + 1))
    rw [List.take_append_drop] at this
    simp only [Nat.add_sub_cancel, List.drop_succ_cons] at this ⊢
    omega

theorem tokensFrom_within (p : Nat) (s : List Char) :
    Within (p + Text.width s) (tokensFrom p s) := by
  fun_induction tokensFrom p s with
  | case1 p =>
    intro t ht
    cases ht
  | case2 p c cs hc ih =>
    apply ih.mono
    have := width_append [c] cs
    simp only [List.singleton_append] at this
    omega
  | case3 p c cs hc fault hf => exact Nat.le_add_right _ _
  | case4 p c cs hc t n hf taken e he ih =>
    rw [he] at ih
    exact Nat.le_trans ih (position_after_le p c cs n)
  | case5 p c cs hc t n hf taken ts hts ih =>
    rw [hts] at ih
    intro u hu
    rcases List.mem_cons.1 hu with rfl | hu
    · exact Nat.le_add_right _ _
    · exact Nat.le_trans (ih u hu) (position_after_le p c cs n)

/-- **The tokens of a text** are those that the text is lexed into, and there are none just if the
text is not lexed into any. -/
theorem lexes_iff {s : List Char} {ts : List Token} :
    Lexes s ts ↔ ∃ ps, tokens s = .ok ps ∧ ps.map Placed.token = ts := by
  constructor
  · intro h
    exact tokensFrom_of_lexes h 0
  · rintro ⟨ps, h, rfl⟩
    exact lexes_of_tokensFrom 0 s ps h

/-! ## Parts of a text -/

/-- The first token of a text, behind blanks. -/
theorem Lexes.exists_of_cons {s : List Char} {t : Token} {ts : List Token}
    (h : Lexes s (t :: ts)) : ∃ gap chars rest, s = gap ++ (chars ++ rest) ∧ Text.Blank gap ∧
      t.Spelled chars ∧ t.Stops rest ∧ Lexes rest ts := by
  generalize hu : t :: ts = us at h
  induction h with
  | nil => cases hu
  | @blank c cs us hc _ ih =>
    obtain ⟨gap, chars, rest, rfl, hg, token⟩ := ih hu
    refine ⟨c :: gap, chars, rest, rfl, ?_, token⟩
    exact List.forall_mem_cons.2 ⟨hc, hg⟩
  | token spelled stops h _ =>
    cases hu
    exact ⟨[], _, _, rfl, Text.blank_nil, spelled, stops, h⟩

section
variable {chars : List Char}

theorem Token.Spelled.eq_word {w : String} (h : (Token.word w).Spelled chars) :
    chars = w.toList := by
  cases h with
  | word => rw [String.toList_ofList]

theorem Token.Spelled.eq_operator {op : Comparator} (h : (Token.operator op).Spelled chars) :
    chars = op.text.toList := by
  cases h with
  | operator => rfl

theorem Token.Spelled.exists_quote {l : String} (h : (Token.text l).Spelled chars) :
    ∃ q, (q = '"' ∨ q = '\'') ∧ chars = q :: (l.toList ++ [q]) := by
  cases h with
  | @text q hq body _ =>
    refine ⟨q, hq, ?_⟩
    rw [String.toList_ofList]

end

/-! ## Blanks around a text -/

theorem Token.Spelled.exists_concat {t : Token} {chars : List Char} (h : t.Spelled chars) :
    ∃ cs c, chars = cs ++ [c] ∧ Text.isBlank c = false := by
  cases h with
  | opening => exact ⟨[], _, rfl, rfl⟩
  | closing => exact ⟨[], _, rfl, rfl⟩
  | @text q hq body h =>
    refine ⟨q :: body, q, rfl, ?_⟩
    rcases hq with rfl | rfl <;> rfl
  | operator op =>
    cases op with
    | less | greater => exact ⟨[], _, rfl, rfl⟩
    | identical => exact ⟨['=', '='], _, rfl, rfl⟩
    | _ => exact ⟨[_], _, rfl, rfl⟩
  | and => exact ⟨['a', 'n'], _, rfl, rfl⟩
  | or => exact ⟨['o'], _, rfl, rfl⟩
  | isIn => exact ⟨['i'], _, rfl, rfl⟩
  | not => exact ⟨['n', 'o'], _, rfl, rfl⟩
  | word h hk =>
    obtain ⟨c, cs, rfl, hc, hcs⟩ := h
    rcases List.eq_nil_or_concat cs with rfl | ⟨ds, d, rfl⟩
    · exact ⟨[], c, rfl, not_isBlank_of_continuesWord (continuesWord_of_startsWord hc)⟩
    · rw [List.concat_eq_append] at hcs ⊢
      have hd : continuesWord d = true := hcs d List.mem_concat_self
      exact ⟨c :: ds, d, rfl, not_isBlank_of_continuesWord hd⟩

/-- A token stays whole when a part of the text behind it is cut off. -/
theorem Token.Stops.of_append {t : Token} {rest behind : List Char}
    (h : t.Stops (rest ++ behind)) : t.Stops rest := by
  have clear (h : Text.Clear continuesWord (rest ++ behind)) : Text.Clear continuesWord rest := by
    intro c hc
    obtain ⟨cs, rfl⟩ := List.head?_eq_some_iff.1 hc
    exact h c rfl
  cases t with
  | operator op =>
    intro other hp
    apply h other
    rw [← List.append_assoc]
    exact hp.trans (List.prefix_append _ _)
  | opening | closing | text s => trivial
  | _ => exact clear h

theorem Lexes.of_blank_append {front s : List Char} {ts : List Token} (hf : Text.Blank front)
    (h : Lexes (front ++ s) ts) : Lexes s ts := by
  induction front with
  | nil => exact h
  | cons c cs ih =>
    obtain ⟨ps, hps, rfl⟩ := lexes_iff.1 h
    rw [tokens, List.cons_append, tokensFrom_blank (hf c List.mem_cons_self)] at hps
    apply ih
    · intro d hd
      exact hf d (List.mem_cons_of_mem c hd)
    · exact lexes_of_tokensFrom _ _ ps hps

theorem Lexes.of_append_blank {s behind : List Char} {ts : List Token} (hb : Text.Blank behind)
    (h : Lexes (s ++ behind) ts) : Lexes s ts := by
  generalize hu : s ++ behind = u at h
  induction h generalizing s behind with
  | nil =>
    rw [(List.append_eq_nil_iff.1 hu).1]
    exact .nil
  | @blank c cs ts hc _ ih =>
    cases s with
    | nil =>
      obtain rfl : behind = c :: cs := hu
      exact ih (s := []) (fun d hd => hb d (List.mem_cons_of_mem c hd)) rfl
    | cons d ds =>
      obtain ⟨rfl, hds⟩ := List.cons.inj hu
      exact .blank hc (ih hb hds)
  | token spelled stops _ ih =>
    -- The last character of a token is none of the blanks behind the text.
    obtain ⟨cs, c, rfl, hc⟩ := spelled.exists_concat
    rw [List.append_assoc, List.singleton_append] at hu
    obtain ⟨rest, rfl, rfl⟩ := Text.exists_of_append_blank hc hb hu
    rw [← List.singleton_append, ← List.append_assoc]
    exact .token spelled stops.of_append (ih hb rfl)

theorem Lexes.trim {s : List Char} {ts : List Token} (h : Lexes s ts) :
    Lexes (Text.trim s) ts := by
  obtain ⟨front, behind, hf, hb, whole⟩ := Text.exists_blank_ends s
  rw [whole, List.append_assoc] at h
  exact (h.of_blank_append hf).of_append_blank hb

end DepClause.Marker
