import Mathlib.Data.Option.Basic
import DepClause.Metadata
import DepClause.Proofs.Text.Trim

/-!
# Names compared with `extra`

A text is searched from left to right for the word `extra`, an equals operator and a quoted name.
Nothing is known of tokens: a quote may close a text and still open a name. What is found is written
in the text, and what is written is found unless the quote in front of it has already opened a name.
-/

namespace DepClause.Metadata

def IsQuote (c : Char) : Prop := c = '"' ∨ c = '\''

instance : DecidablePred IsQuote := fun c => inferInstanceAs (Decidable (c = '"' ∨ c = '\''))

/-- The word `extra` and an equals operator, with blanks behind each. -/
def ExtraEquals (s : List Char) : Prop :=
  ∃ gap gap', Text.Blank gap ∧ Text.Blank gap' ∧
    s = 'e' :: 'x' :: 't' :: 'r' :: 'a' :: (gap ++ '=' :: '=' :: gap')

/-- A word can start behind the text. -/
def WordEnded (s : List Char) : Prop := ∀ c ∈ s.getLast?, isWordChar c = false

instance (s : List Char) : Decidable (WordEnded s) :=
  decidable_of_iff (s.getLast?.all (!isWordChar ·) = true) (by simp [WordEnded, Option.all_eq_true])

/-- The name stands in the text behind `extra ==` and between quotes. -/
def ComparedIn (text front : List Char) (q : Char) (name : List Char) : Prop :=
  ∃ asks rest, ExtraEquals asks ∧ IsQuote q ∧ WordEnded front ∧
    text = front ++ (asks ++ q :: (name ++ q :: rest))

/-- The last quote of the text stands itself behind `extra ==`, which makes it open a name. -/
def Opened (q : Char) (front : List Char) : Prop :=
  ∃ before asks behind, ExtraEquals asks ∧ WordEnded before ∧ (∀ c ∈ behind, ¬IsQuote c) ∧
    front = before ++ (asks ++ q :: behind)

/-! ## Ends of words -/

theorem wordEnded_nil : WordEnded [] := by decide

theorem wordEnded_concat {front : List Char} {c : Char} :
    WordEnded (front ++ [c]) ↔ isWordChar c = false := by
  simp [WordEnded]

theorem WordEnded.behind {t : List Char} (h : WordEnded t) (nonempty : t ≠ []) (s : List Char) :
    WordEnded (s ++ t) := by
  obtain ⟨u, c, rfl⟩ := (List.eq_nil_or_concat t).resolve_left nonempty
  rw [List.concat_eq_append, wordEnded_concat] at h
  rwa [List.concat_eq_append, ← List.append_assoc, wordEnded_concat]

theorem WordEnded.append {s t : List Char} (hs : WordEnded s) (ht : WordEnded t) :
    WordEnded (s ++ t) := by
  cases t with
  | nil => rwa [List.append_nil]
  | cons c cs => exact ht.behind (List.cons_ne_nil c cs) s

theorem wordEnded_of_blank {s : List Char} (h : Text.Blank s) : WordEnded s := by
  intro c hc
  have blank := h c (List.mem_of_getLast? hc)
  by_contra word
  rw [Bool.not_eq_false, isWordChar, Bool.or_eq_true, beq_iff_eq] at word
  rcases word with word | rfl
  · rw [Text.not_isBlank_of_isAlphanum word] at blank
    cases blank
  · cases blank

/-! ## The comparison in front -/

section
variable {s name rest : List Char} {q : Char}

theorem IsQuote.not_isBlank (h : IsQuote q) : Text.isBlank q = false := by
  rcases h with rfl | rfl <;> rfl

theorem IsQuote.not_isWordChar (h : IsQuote q) : isWordChar q = false := by
  rcases h with rfl | rfl <;> rfl

theorem ExtraEquals.exists_cons (h : ExtraEquals s) : ∃ t, s = 'e' :: t ∧ 'e' ∉ t := by
  obtain ⟨gap, gap', hg, hg', rfl⟩ := h
  refine ⟨_, rfl, ?_⟩
  have visible : Text.isBlank 'e' = false := rfl
  simp [hg.not_mem visible, hg'.not_mem visible]

theorem ExtraEquals.not_isQuote (h : ExtraEquals s) : ∀ c ∈ s, ¬IsQuote c := by
  obtain ⟨gap, gap', hg, hg', rfl⟩ := h
  intro c hc quote
  have kept := quote.not_isBlank
  rcases quote with rfl | rfl <;>
    simp [hg.not_mem kept, hg'.not_mem kept] at hc

theorem extraComparison?_of_equals {asks : List Char} (h : ExtraEquals asks) (hq : IsQuote q)
    (nonempty : name ≠ []) (plain : ∀ c ∈ name, ¬IsQuote c) (rest : List Char) :
    extraComparison? (asks ++ q :: (name ++ q :: rest)) = some (name, rest) := by
  obtain ⟨gap, gap', hg, hg', rfl⟩ := h
  have operator : Text.trimLeft (gap ++ '=' :: '=' :: (gap' ++ q :: (name ++ q :: rest))) =
      '=' :: '=' :: (gap' ++ q :: (name ++ q :: rest)) := by
    rw [Text.trimLeft_blank_append hg, Text.trimLeft_cons rfl]
  have quoted : Text.trimLeft (gap' ++ q :: (name ++ q :: rest)) = q :: (name ++ q :: rest) := by
    rw [Text.trimLeft_blank_append hg', Text.trimLeft_cons hq.not_isBlank]
  have inside : (name ++ q :: rest).takeWhile (fun c => c != '"' && c != '\'') = name := by
    apply Text.takeWhile_append
    · simpa [IsQuote] using plain
    · apply Text.clear_cons
      rcases hq with rfl | rfl <;> rfl
  have quote : q = '"' ∨ q = '\'' := hq
  simp [extraComparison?, operator, quoted, inside, nonempty, quote, guard]

/-- A quoted name goes up to the quote that closes it. -/
theorem exists_of_closed {inner : List Char}
    (closed : (inner.drop (inner.takeWhile fun c => c != '"' && c != '\'').length).head? = some q) :
    ∃ name rest, (inner.takeWhile fun c => c != '"' && c != '\'') = name ∧
      inner = name ++ q :: rest ∧ ∀ c ∈ name, ¬IsQuote c := by
  have plain : ∀ c ∈ inner.takeWhile (fun c => c != '"' && c != '\''), ¬IsQuote c := by
    intro c hc
    have inside := List.all_eq_true.1 List.all_takeWhile c hc
    simpa [IsQuote] using inside
  obtain ⟨behind, cut⟩ := List.takeWhile_prefix (l := inner) fun c => c != '"' && c != '\''
  generalize inner.takeWhile (fun c => c != '"' && c != '\'') = name at closed plain cut ⊢
  subst cut
  rw [List.drop_left] at closed
  obtain ⟨rest, rfl⟩ := List.head?_eq_some_iff.1 closed
  exact ⟨name, rest, rfl, rfl, plain⟩

theorem exists_of_extraComparison? (h : extraComparison? s = some (name, rest)) :
    ∃ asks q, ExtraEquals asks ∧ IsQuote q ∧ name ≠ [] ∧ (∀ c ∈ name, ¬IsQuote c) ∧
      s = asks ++ q :: (name ++ q :: rest) := by
  simp only [extraComparison?, Option.bind_eq_bind, Option.bind_eq_some_iff, Option.guard_eq_some',
    exists_const, List.isPrefixOf_iff_prefix] at h
  obtain ⟨⟨t, rfl⟩, ⟨u, operator⟩, h⟩ := h
  have behindWord : ("extra".toList ++ t).drop 5 = t := rfl
  have behindOperator : ("==".toList ++ u).drop 2 = u := rfl
  rw [behindWord] at operator h
  rw [← operator, behindOperator] at h
  obtain ⟨gap, hg, first⟩ := Text.exists_blank_front t
  obtain ⟨gap', hg', second⟩ := Text.exists_blank_front u
  cases quoted : Text.trimLeft u with
  | nil =>
    rw [quoted] at h
    cases h
  | cons q inner =>
    rw [quoted] at h
    simp only [Option.bind_eq_some_iff, Option.guard_eq_some', exists_const, Bool.or_eq_true,
      Bool.and_eq_true, Bool.not_eq_true', List.isEmpty_eq_false_iff, beq_iff_eq] at h
    obtain ⟨quote, ⟨nonempty, closed⟩, found⟩ := h
    obtain ⟨taken, behind, same, rfl, plain⟩ := exists_of_closed closed
    rw [same] at nonempty found
    cases found
    refine ⟨'e' :: 'x' :: 't' :: 'r' :: 'a' :: (gap ++ '=' :: '=' :: gap'), q,
      ⟨gap, gap', hg, hg', rfl⟩, quote, nonempty, plain, ?_⟩
    rw [first, ← operator, second, quoted]
    simp

end

/-! ## The search -/

section
variable {asks name rest : List Char} {q : Char}

/-- Two texts that go on alike behind a first quote are cut at the same one. -/
theorem append_inj_of_quote {s t x y : List Char} {p : Char} (hs : ∀ c ∈ s, ¬IsQuote c)
    (ht : ∀ c ∈ t, ¬IsQuote c) (hq : IsQuote q) (hp : IsQuote p)
    (h : s ++ q :: x = t ++ p :: y) : s = t ∧ q = p := by
  have stop {c : Char} (hc : IsQuote c) (u : List Char) :
      Text.Clear (fun c => !decide (IsQuote c)) (c :: u) := Text.clear_cons u (by simp [hc])
  have plain {u : List Char} (hu : ∀ c ∈ u, ¬IsQuote c) :
      ∀ c ∈ u, (!decide (IsQuote c)) = true := fun c hc => by simp [hu c hc]
  obtain ⟨same, rest⟩ := Text.append_inj_of_clear (plain hs) (plain ht) (stop hq x) (stop hp y) h
  exact ⟨same, (List.cons.inj rest).1⟩

theorem ExtraEquals.ne_of_quote (h : ExtraEquals asks) (hq : IsQuote q) (s t : List Char) :
    asks ++ s ≠ q :: t := by
  obtain ⟨u, rfl, -⟩ := h.exists_cons
  rintro ⟨⟩
  exact absurd hq (by decide)

/-- The word stands at the start only. -/
theorem ExtraEquals.eq_nil_of_append {front : List Char} (h : ExtraEquals (front ++ asks))
    (ask : ExtraEquals asks) : front = [] := by
  obtain ⟨t, whole, once⟩ := h.exists_cons
  obtain ⟨u, rfl, -⟩ := ask.exists_cons
  cases front with
  | nil => rfl
  | cons c cs =>
    obtain ⟨-, rfl⟩ := List.cons.inj whole
    exact absurd (List.mem_append_right cs List.mem_cons_self) once

/-- A comparison that starts in front of another one ends there as well, or its closing quote is the
opening quote of the other one. -/
theorem behind_or_opened {front tail asked found behind : List Char} {p : Char}
    (hf : front ≠ []) (ask : ExtraEquals asks) (hq : IsQuote q) (earlier : ExtraEquals asked)
    (hp : IsQuote p) (plain : ∀ c ∈ found, ¬IsQuote c)
    (h : front ++ (asks ++ q :: tail) = asked ++ p :: (found ++ p :: behind)) :
    (∃ between, front = asked ++ p :: (found ++ p :: between) ∧
      behind = between ++ (asks ++ q :: tail)) ∨
    ∃ part, front = asked ++ q :: part ∧ ∀ c ∈ part, ¬IsQuote c := by
  rw [← List.cons_append, ← List.append_assoc asked, List.append_eq_append_iff] at h
  obtain ⟨a, cut, joint⟩ | ⟨b, rfl, joint⟩ := h
  · rcases List.append_eq_append_iff.1 cut with ⟨b, rfl, inside⟩ | ⟨b, rfl, rfl⟩
    · cases b with
      | nil =>
        obtain rfl : p :: found = a := inside
        exact absurd joint (ask.ne_of_quote hp _ _)
      | cons c part =>
        obtain ⟨rfl, rfl⟩ := List.cons.inj inside
        have noQuote : ∀ c ∈ a, ¬IsQuote c := fun c hc => plain c (List.mem_append_right part hc)
        obtain ⟨-, rfl⟩ := append_inj_of_quote ask.not_isQuote noQuote hq hp joint
        exact .inr ⟨part, rfl, fun c hc => plain c (List.mem_append_left a hc)⟩
    · -- the whole of `asked` would end in `asks`
      rw [List.append_assoc, List.cons_append] at joint
      have noQuote : ∀ c ∈ b, ¬IsQuote c := fun c hc =>
        earlier.not_isQuote c (List.mem_append_right front hc)
      obtain ⟨rfl, -⟩ := append_inj_of_quote ask.not_isQuote noQuote hq hp joint
      exact absurd (earlier.eq_nil_of_append ask) hf
  · cases b with
    | nil => exact absurd joint.symm (ask.ne_of_quote hp _ _)
    | cons c between =>
      obtain ⟨rfl, behind⟩ := List.cons.inj joint
      exact .inl ⟨between, by simp, behind⟩

end

section
variable {asks name rest s : List Char} {q c : Char} {inWord : Bool}

theorem comparedExtras_of_found (h : extraComparison? s = some (name, rest)) (fuel : Nat) :
    comparedExtras false (fuel + 1) s = String.ofList name :: comparedExtras false fuel rest := by
  cases s with
  | nil => cases h
  | cons c cs => simp [comparedExtras, h]

theorem comparedExtras_of_missed {cs : List Char}
    (h : inWord = false → extraComparison? (c :: cs) = none) (fuel : Nat) :
    comparedExtras inWord (fuel + 1) (c :: cs) = comparedExtras (isWordChar c) fuel cs := by
  cases inWord with
  | true => simp [comparedExtras]
  | false => simp [comparedExtras, h rfl]

theorem found_or_missed (inWord : Bool) (s : List Char) :
    (inWord = false ∧ ∃ name rest, extraComparison? s = some (name, rest)) ∨
      (inWord = false → extraComparison? s = none) := by
  cases h : extraComparison? s with
  | none => exact .inr fun _ => rfl
  | some x =>
    cases inWord with
    | true => exact .inr nofun
    | false => exact .inl ⟨rfl, x.1, x.2, rfl⟩

/-- Of a text that is read up to `done`, the search finds what is written behind `front`, unless the
last quote in front of it has opened a name. -/
theorem mem_comparedExtras_or_opened (ask : ExtraEquals asks) (hq : IsQuote q)
    (nonempty : name ≠ []) (plain : ∀ c ∈ name, ¬IsQuote c) {done front : List Char} {fuel : Nat}
    (state : inWord = false ↔ WordEnded done) (ended : WordEnded (done ++ front))
    (enough : (front ++ (asks ++ q :: (name ++ q :: rest))).length ≤ fuel) :
    String.ofList name ∈ comparedExtras inWord fuel (front ++ (asks ++ q :: (name ++ q :: rest))) ∨
      Opened q (done ++ front) := by
  induction fuel generalizing done front inWord with
  | zero =>
    simp only [List.length_append, List.length_cons] at enough
    omega
  | succ fuel ih =>
    cases front with
    | nil =>
      rw [List.append_nil] at ended
      obtain rfl := state.2 ended
      left
      rw [List.nil_append,
        comparedExtras_of_found (extraComparison?_of_equals ask hq nonempty plain _)]
      exact List.mem_cons_self
    | cons c cs =>
      rcases found_or_missed inWord (c :: cs ++ (asks ++ q :: (name ++ q :: rest))) with
        ⟨rfl, found, behind, hit⟩ | missed
      · obtain ⟨asked, p, earlier, hp, -, free, whole⟩ := exists_of_extraComparison? hit
        obtain ⟨between, front, rfl⟩ | ⟨part, front, inside⟩ :=
          behind_or_opened (List.cons_ne_nil c cs) ask hq earlier hp free whole
        · have passed : done ++ c :: cs = done ++ (asked ++ p :: found) ++ [p] ++ between := by
            rw [front]
            simp
          have closed : WordEnded (done ++ (asked ++ p :: found) ++ [p]) :=
            wordEnded_concat.2 hp.not_isWordChar
          rw [comparedExtras_of_found hit, passed]
          refine (ih (iff_of_true rfl closed) (passed ▸ ended) ?_).imp_left
            (List.mem_cons_of_mem _)
          have shorter := congrArg List.length front
          simp only [List.length_append, List.length_cons] at enough shorter ⊢
          omega
        · exact .inr ⟨done, asked, part, earlier, state.1 rfl, inside, by rw [front]⟩
      · rw [List.cons_append] at missed ⊢
        rw [comparedExtras_of_missed missed, List.append_cons done]
        rw [List.append_cons done] at ended
        apply ih wordEnded_concat.symm ended
        simp only [List.length_append, List.length_cons] at enough ⊢
        omega

/-- What the search finds is written in the text. -/
theorem exists_of_mem_comparedExtras {done : List Char} {fuel : Nat} {found : String}
    (state : inWord = false → WordEnded done) (h : found ∈ comparedExtras inWord fuel s) :
    ∃ front q, ComparedIn (done ++ s) front q found.toList := by
  induction fuel generalizing done s inWord with
  | zero =>
    cases s <;> cases h
  | succ fuel ih =>
    cases s with
    | nil => cases h
    | cons c cs =>
      rcases found_or_missed inWord (c :: cs) with ⟨rfl, name, rest, hit⟩ | missed
      · obtain ⟨asks, q, ask, hq, -, -, whole⟩ := exists_of_extraComparison? hit
        rw [comparedExtras_of_found hit] at h
        rw [whole]
        rcases List.mem_cons.1 h with rfl | h
        · refine ⟨done, q, asks, rest, ask, hq, state rfl, ?_⟩
          rw [String.toList_ofList]
        · have passed : done ++ (asks ++ q :: (name ++ q :: rest)) =
              done ++ (asks ++ q :: name) ++ [q] ++ rest := by simp
          rw [passed]
          exact ih (fun _ => wordEnded_concat.2 hq.not_isWordChar) h
      · rw [comparedExtras_of_missed missed] at h
        rw [List.append_cons]
        exact ih wordEnded_concat.2 h

end

end DepClause.Metadata
