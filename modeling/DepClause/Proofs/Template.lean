import DepClause.Proofs.Text
import DepClause.Proofs.Traversal
import DepClause.Template

/-!
# Templates that can be filled in

`Matched` says of a text alone that each of its braces is doubled or stands around the name of a
placeholder. A template for whose placeholders there are values can be filled in just if its text is
matched, and what stands in the way otherwise is a brace.
-/

namespace DepClause.Template

inductive Matched : List Char → Prop where
  | nil : Matched []
  | plain {c : Char} {s : List Char} (hc : isBrace c = false) (h : Matched s) : Matched (c :: s)
  | doubled {c : Char} {s : List Char} (hc : isBrace c = true) (h : Matched s) :
      Matched (c :: c :: s)
  | placeholder {name s : List Char} (hn : ∀ c ∈ name, isBrace c = false) (h : Matched s) :
      Matched ('\x7b' :: (name ++ '\x7d' :: s))

theorem isBrace_iff {c : Char} : isBrace c = true ↔ c = '\x7b' ∨ c = '\x7d' := by
  simp [isBrace]

/-! ## The parts of a template by what stands in front -/

theorem pieces_plain {c : Char} (hc : isBrace c = false) (s : List Char) :
    pieces (c :: s) = .char c :: pieces s := by
  have plain : ¬(c = '\x7b' ∨ c = '\x7d') := by
    rw [← isBrace_iff, hc]
    exact Bool.false_ne_true
  rw [not_or] at plain
  simp [pieces, plain]

theorem pieces_doubled {c : Char} (hc : isBrace c = true) (s : List Char) :
    pieces (c :: c :: s) = .char c :: pieces s := by
  rcases isBrace_iff.1 hc with rfl | rfl <;> simp [pieces]

/-- The name of a placeholder goes up to the first brace, which closes it. -/
theorem pieces_placeholder {name : List Char} (hn : ∀ c ∈ name, isBrace c = false)
    (s : List Char) :
    pieces ('\x7b' :: (name ++ '\x7d' :: s)) = .name (String.ofList name) :: pieces s := by
  have inside : ∀ c ∈ name, (!isBrace c) = true := fun c hc => by rw [hn c hc, Bool.not_false]
  have stop : Text.Clear (!isBrace ·) ('\x7d' :: s) := Text.clear_cons s rfl
  have taken := Text.takeWhile_append inside stop
  have left := Text.dropWhile_append inside stop
  have single : ∀ cs, name ++ '\x7d' :: s ≠ '\x7b' :: cs := by
    intro cs h
    cases name with
    | nil => cases h
    | cons c name =>
      have plain := hn c List.mem_cons_self
      rw [(List.cons.inj h).1] at plain
      cases plain
  rw [pieces]
  · split
    · next rest h =>
      rw [left] at h
      obtain rfl := (List.cons.inj h).2
      rw [taken]
    · next h => exact absurd left (h s)
  · exact fun cs h => single cs h

theorem matched_iff {s : List Char} : Matched s ↔ ∀ c, Piece.stray c ∉ pieces s := by
  constructor
  · intro h
    induction h with
    | nil => simp [pieces]
    | plain hc _ ih =>
      rw [pieces_plain hc]
      simpa using ih
    | doubled hc _ ih =>
      rw [pieces_doubled hc]
      simpa using ih
    | placeholder hn _ ih =>
      rw [pieces_placeholder hn]
      simpa using ih
  · fun_induction pieces s with
    | case1 =>
      intro _
      exact .nil
    | case2 cs ih | case3 cs ih =>
      intro h
      exact .doubled rfl (ih fun c hc => h c (List.mem_cons_of_mem _ hc))
    | case4 cs single ih =>
      intro h
      exact absurd List.mem_cons_self (h _)
    | case5 cs single rest closed ih =>
      intro h
      have inside : ∀ c ∈ cs.takeWhile (!isBrace ·), isBrace c = false := fun c hc => by
        simpa using List.all_eq_true.1 List.all_takeWhile c hc
      have whole : cs = cs.takeWhile (!isBrace ·) ++ '\x7d' :: rest := by
        rw [← closed, List.takeWhile_append_dropWhile]
      rw [whole]
      exact .placeholder inside (ih fun c hc => h c (List.mem_cons_of_mem _ hc))
    | case6 cs single opened ih =>
      intro h
      exact absurd List.mem_cons_self (h _)
    | case7 c cs _ _ closing opening ih =>
      intro h
      have plain : isBrace c = false := by
        rw [Bool.eq_false_iff, Ne, isBrace_iff]
        exact fun hc => hc.elim opening closing
      exact .plain plain (ih fun c hc => h c (List.mem_cons_of_mem _ hc))

/-! ## Filling in -/

def Piece.name? : Piece → Option String
  | .name s => some s
  | _ => none

/-- The text of a part that does not fail to have one. -/
def Piece.content (values : Table String) : Piece → List Char
  | .char c => [c]
  | .name s => ((values.get? s).getD "").toList
  | .stray c => [c]

theorem placeholders_eq (template : String) :
    placeholders template = ((pieces template.toList).filterMap Piece.name?).eraseDups := rfl

theorem mem_placeholders {template name : String} :
    name ∈ placeholders template ↔ Piece.name name ∈ pieces template.toList := by
  rw [placeholders_eq, List.mem_eraseDups, List.mem_filterMap]
  constructor
  · rintro ⟨p, hp, named⟩
    cases p with
    | name s =>
      cases named
      exact hp
    | char c => cases named
    | stray c => cases named
  · intro h
    exact ⟨_, h, rfl⟩

section
variable {template : String} {values : Table String}

theorem fillPiece_name (h : ∀ name ∈ placeholders template, (values.get? name).isSome)
    {name : String} (hn : Piece.name name ∈ pieces template.toList) :
    ∃ v, fillPiece template values (.name name) = .ok v := by
  obtain ⟨v, hv⟩ := Option.isSome_iff_exists.1 (h name (mem_placeholders.2 hn))
  exact ⟨v, by simp only [fillPiece, hv]⟩

/-- A template without stray braces stands for the contents of its parts. -/
theorem fill_of_matched (h : ∀ name ∈ placeholders template, (values.get? name).isSome)
    (matched : Matched template.toList) :
    fill template values = .ok (Text.joined
      (String.ofList ((pieces template.toList).flatMap (Piece.content values)))) := by
  have filled : ∀ p ∈ pieces template.toList,
      fillPiece template values p = .ok (String.ofList (p.content values)) := by
    intro p hp
    cases p with
    | char c => rfl
    | name name =>
      obtain ⟨v, hv⟩ := Option.isSome_iff_exists.1 (h name (mem_placeholders.2 hp))
      simp [fillPiece, Piece.content, hv]
    | stray c => exact absurd hp (matched_iff.1 matched c)
  have whole : String.join ((pieces template.toList).map fun p => String.ofList (p.content values)) =
      String.ofList ((pieces template.toList).flatMap (Piece.content values)) := by
    rw [← String.toList_inj, String.toList_join, String.toList_ofList, List.flatMap_map]
    simp only [String.toList_ofList]
  rw [fill, mapM_eq_ok_map filled, ← whole]
  rfl

theorem exists_fill_of_matched (h : ∀ name ∈ placeholders template, (values.get? name).isSome)
    (matched : Matched template.toList) : ∃ text, fill template values = .ok text :=
  ⟨_, fill_of_matched h matched⟩

/-- No text stands for a stray brace. -/
theorem matched_of_texts {texts : List String}
    (filled : (pieces template.toList).mapM (fillPiece template values) = .ok texts) :
    Matched template.toList := by
  refine matched_iff.2 fun c hc => ?_
  obtain ⟨text, _, ht⟩ := exists_ok_of_mapM filled hc
  cases ht

theorem matched_of_fill {text : String} (filled : fill template values = .ok text) :
    Matched template.toList := by
  obtain ⟨texts, ht, _⟩ := bind_eq_ok_iff.1 filled
  exact matched_of_texts ht

theorem fill_of_not_matched (h : ∀ name ∈ placeholders template, (values.get? name).isSome)
    (unmatched : ¬Matched template.toList) :
    ∃ brace, fill template values = .error (.badTemplate template (.brace brace)) := by
  cases filled : (pieces template.toList).mapM (fillPiece template values) with
  | ok texts => exact absurd (matched_of_texts filled) unmatched
  | error e =>
    obtain ⟨p, hp, he⟩ := exists_of_mapM_error filled
    cases p with
    | char c => cases he
    | name name =>
      obtain ⟨v, hv⟩ := fillPiece_name h hp
      rw [hv] at he
      cases he
    | stray c =>
      cases he
      exact ⟨_, by rw [fill, filled]; rfl⟩

end

end DepClause.Template
