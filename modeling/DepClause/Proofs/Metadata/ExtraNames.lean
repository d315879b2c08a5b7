import DepClause.Proofs.Glob
import DepClause.Proofs.Marker.Finality
import DepClause.Proofs.Marker.Printing
import DepClause.Proofs.Metadata.Scan
import DepClause.Proofs.Requirement

/-!
# Extras that markers name

Without a list of extras the names are searched for in the requirements. The search knows no tokens,
so a comparison is followed from the marker tree through the tokens to the place where it is written
and from there through the search.
-/

namespace DepClause

/-- A comparison of `extra` for equality with a text that can be a name. -/
structure Comparison.NamesExtra (c : Comparison) : Prop where
  extra : c.variableName = "extra"
  equal : c.operator = .compare .equal
  nonempty : c.literal ≠ ""
  plain : ∀ d ∈ c.literal.toList, ¬Metadata.IsQuote d

/-! ## The text of a comparison -/

namespace Marker

open Metadata (WordEnded IsQuote ComparedIn wordEnded_nil wordEnded_concat wordEnded_of_blank)

/-- No word goes on from a token to what stands behind it. -/
theorem Token.Spelled.wordEnded {t : Token} {chars rest : List Char} (h : t.Spelled chars)
    (stops : t.Stops rest) : WordEnded chars ∨ Text.Clear continuesWord rest := by
  cases h with
  | opening | closing => exact .inl (by decide)
  | @text q hq body _ =>
    have ended : WordEnded (q :: body ++ [q]) :=
      wordEnded_concat.2 (IsQuote.not_isWordChar hq)
    exact .inl ended
  | operator op =>
    left
    cases op <;> decide
  | _ => exact .inr stops

theorem Lexes.exists_of_append {s : List Char} {us ts : List Token} (h : Lexes s (us ++ ts)) :
    ∃ front rest, s = front ++ rest ∧ Lexes rest ts ∧
      (WordEnded front ∨ Text.Clear continuesWord rest) := by
  generalize hv : us ++ ts = vs at h
  induction h generalizing us with
  | nil =>
    obtain ⟨rfl, rfl⟩ := List.append_eq_nil_iff.1 hv
    exact ⟨[], [], rfl, .nil, .inr (Text.clear_nil _)⟩
  | @blank c cs _ hc _ ih =>
    obtain ⟨front, rest, rfl, lexes, apart⟩ := ih hv
    refine ⟨c :: front, rest, rfl, lexes, apart.imp_left ?_⟩
    have blank : WordEnded [c] := wordEnded_of_blank (by simpa [Text.Blank] using hc)
    exact blank.append
  | @token t chars rest vs spelled stops h ih =>
    cases us with
    | nil =>
      obtain rfl : ts = t :: vs := hv
      exact ⟨[], chars ++ rest, rfl, .token spelled stops h, .inl wordEnded_nil⟩
    | cons u us =>
      obtain ⟨rfl, behind⟩ := List.cons.inj hv
      obtain ⟨front, rest, rfl, lexes, apart⟩ := ih behind
      refine ⟨chars ++ front, rest, by rw [List.append_assoc], lexes, ?_⟩
      cases front with
      | nil =>
        rw [List.append_nil]
        exact spelled.wordEnded stops
      | cons c cs => exact apart.imp_left fun ended => ended.behind (List.cons_ne_nil c cs) chars

/-- No old name stands for `extra`. -/
theorem Names.eq_extra {w : String} (h : Names w "extra") : w = "extra" := by
  generalize name : "extra" = v at h
  cases h with
  | old h => cases h <;> exact absurd name (by decide)
  | present _ => rfl

theorem exists_comparedIn {text : String} {m : Marker} (h : parse text = .ok m)
    {c : Comparison} (hc : c ∈ m.comparisons) (names : c.NamesExtra) (first : c.reversed = false) :
    ∃ front q, ComparedIn text.toList front q c.literal.toList := by
  obtain ⟨ts, lexes, derived⟩ := parse_eq_ok_iff.1 h
  obtain ⟨us, ⟨before, after, rfl⟩, compared⟩ := infix_of_derives derived hc
  cases compared with
  | textFirst _ _ => cases first
  | @variableFirst w v l ops op named hop =>
    obtain rfl : v = "extra" := names.extra
    obtain rfl := named.eq_extra
    obtain rfl : op = .compare .equal := names.equal
    cases hop
    rw [List.append_assoc] at lexes
    obtain ⟨front, s, whole, lexes, apart⟩ := lexes.exists_of_append
    obtain ⟨gap, chars, s, rfl, hg, word, stops, lexes⟩ := lexes.exists_of_cons
    obtain ⟨gap', chars', s, rfl, hg', operator, stops', lexes⟩ := lexes.exists_of_cons
    obtain ⟨gap'', chars'', s, rfl, hg'', literal, -, -⟩ := lexes.exists_of_cons
    obtain rfl := word.eq_word
    obtain rfl := operator.eq_operator
    obtain ⟨q, hq, rfl⟩ := literal.exists_quote
    refine ⟨front ++ gap, q, 'e' :: 'x' :: 't' :: 'r' :: 'a' :: (gap' ++ '=' :: '=' :: gap''), s,
      ⟨gap', gap'', hg', hg'', rfl⟩, hq, ?_, ?_⟩
    · cases gap with
      | nil =>
        rw [List.append_nil]
        refine apart.resolve_right ?_
        intro clear
        exact absurd (clear 'e' rfl) (by decide)
      | cons c cs => exact (wordEnded_of_blank hg).behind (List.cons_ne_nil c cs) front
    · rw [whole]
      simp [Comparator.text]

end Marker

/-! ## Patterns -/

/-- A name is a pattern for itself, and activates the comparisons with it. -/
theorem Comparison.NamesExtra.evaluate {c : Comparison} (h : c.NamesExtra) {names : List String}
    (found : c.literal ∈ names) (environment : Table String) (capabilities : Table Capability) :
    c.evaluate (.of environment (Glob.select [c.literal] names) capabilities)
      = .ok (.known true) := by
  have selected : c.literal ∈ Glob.select [c.literal] names := by
    apply List.mem_filter.2
    exact ⟨found, by simp [Glob.isMatch_self]⟩
  have active : (Scope.of environment (Glob.select [c.literal] names) capabilities).extras.contains
      (Extra.normalize c.literal) = true :=
    List.contains_iff_mem.2 (List.mem_map_of_mem selected)
  rw [evaluate_extra h.extra, meetsExtras, h.equal]
  dsimp only
  rw [active]
  rfl

namespace Metadata

variable {text : String} {r : Requirement} {m : Marker} {c : Comparison}

theorem mem_extrasOf_iff {requirements : List String} {name : String} :
    name ∈ extrasOf requirements ↔
      ∃ text ∈ requirements, name ∈ comparedExtras false text.length text.toList := by
  rw [extrasOf, List.mem_eraseDups, List.mem_flatMap]

theorem ComparedIn.within {s before front name : List Char} {q : Char}
    (h : ComparedIn s front q name) (ended : WordEnded before) (after : List Char) :
    ComparedIn (before ++ (s ++ after)) (before ++ front) q name := by
  obtain ⟨asks, rest, ask, hq, word, rfl⟩ := h
  exact ⟨asks, rest ++ after, ask, hq, ended.append word, by simp⟩

/-- A comparison with the variable in front is written so in its requirement. -/
theorem exists_comparedIn (h : Requirement.parse text = .ok r) (hm : r.marker = some m)
    (hc : c ∈ m.comparisons) (names : c.NamesExtra) (first : c.reversed = false) :
    ∃ front q, ComparedIn text.toList front q c.literal.toList := by
  obtain ⟨part, ⟨before, after, whole⟩, read⟩ := Requirement.exists_marker_part h hm
  obtain ⟨front, q, compared⟩ := Marker.exists_comparedIn read hc names first
  rw [String.toList_ofList] at compared
  obtain ⟨gap, gap', hg, -, trimmed⟩ := Text.exists_blank_ends part
  have ended : WordEnded (before ++ [';'] ++ gap) :=
    (wordEnded_concat.2 rfl).append (wordEnded_of_blank hg)
  have cut : text.toList = before ++ [';'] ++ gap ++ (Text.trim part ++ (gap' ++ after)) := by
    conv_lhs => rw [← whole, trimmed]
    simp
  rw [cut]
  exact ⟨_, q, compared.within ended _⟩

theorem mem_extrasOf_of_comparedIn {requirements : List String} (listed : text ∈ requirements)
    (names : c.NamesExtra) {front : List Char} {q : Char}
    (h : ComparedIn text.toList front q c.literal.toList) (unopened : ¬Opened q front) :
    c.literal ∈ extrasOf requirements := by
  obtain ⟨asks, rest, ask, hq, ended, whole⟩ := h
  have name : c.literal.toList ≠ [] := by simpa using names.nonempty
  have found : String.ofList c.literal.toList ∈ comparedExtras false text.length text.toList ∨
      Opened q ([] ++ front) := by
    rw [← String.length_toList, whole]
    exact mem_comparedExtras_or_opened ask hq name names.plain (iff_of_true rfl wordEnded_nil)
      ended (Nat.le_refl _)
  rw [String.ofList_toList, List.nil_append] at found
  exact mem_extrasOf_iff.2 ⟨text, listed, found.resolve_right unopened⟩

/-- **The names found cover the comparisons with the variable in front.** The literal of such a
comparison is found, and as a pattern it makes the comparison true, unless it is written in its
requirement only where the last quote in front has opened a name. A name that is found is written
behind `extra ==` in a requirement, so the other order of a comparison does not add to them. -/
theorem extras_cover_comparisons (requirements : List String) :
    (∀ text ∈ requirements, ∀ r m c, Requirement.parse text = .ok r → r.marker = some m →
      c ∈ m.comparisons → c.NamesExtra → c.reversed = false →
      (c.literal ∈ extrasOf requirements ∧ ∀ environment capabilities,
        c.evaluate (.of environment (Glob.select [c.literal] (extrasOf requirements)) capabilities)
          = .ok (.known true)) ∨
      (∃ front q, ComparedIn text.toList front q c.literal.toList) ∧
        ∀ front q, ComparedIn text.toList front q c.literal.toList → Opened q front) ∧
    ∀ name ∈ extrasOf requirements, ∃ text ∈ requirements, ∃ front q,
      ComparedIn text.toList front q name.toList := by
  constructor
  · intro text listed r m c read marker part names first
    by_cases opened : ∀ front q, ComparedIn text.toList front q c.literal.toList → Opened q front
    · exact .inr ⟨exists_comparedIn read marker part names first, opened⟩
    · simp only [not_forall] at opened
      obtain ⟨front, q, compared, unopened⟩ := opened
      have found := mem_extrasOf_of_comparedIn listed names compared unopened
      exact .inl ⟨found, names.evaluate found⟩
  · intro name found
    obtain ⟨text, listed, found⟩ := mem_extrasOf_iff.1 found
    obtain ⟨front, q, compared⟩ := exists_of_mem_comparedExtras (fun _ => wordEnded_nil) found
    exact ⟨text, listed, front, q, compared⟩

/-- A quoted text that ends in `extra ==` opens a name with its closing quote. -/
example : extrasOf ["foo; os_name == \"extra ==\" and extra == \"y\""] = [" and extra == "] := by
  decide +kernel

/-- A quote that has opened a name is a third one of its kind. -/
theorem count_of_opened {s front name : List Char} {q : Char} (h : ComparedIn s front q name)
    (opened : Opened q front) : 3 ≤ s.count q := by
  obtain ⟨asks, rest, -, -, -, rfl⟩ := h
  obtain ⟨before, asked, behind, -, -, -, rfl⟩ := opened
  simp only [List.count_append, List.count_cons_self]
  omega

theorem extras_cover_comparisons_of_quoted :
    let text := "foo; os_name == 'nt' and extra == \"test\""
    let c : Comparison := ⟨"extra", .compare .equal, "test", false⟩
    (∃ r m, Requirement.parse text = .ok r ∧ r.marker = some m ∧ c ∈ m.comparisons ∧
      c.NamesExtra) ∧ "test" ∈ extrasOf [text] := by
  intro text c
  let m : Marker := .and (.comparison ⟨"os_name", .compare .equal, "nt", false⟩) (.comparison c)
  let r : Requirement := ⟨"foo", [], [], none, some m, "os_name == 'nt' and extra == \"test\""⟩
  have read : Requirement.parse text = .ok r := eq_ok_of_toOption (by decide +kernel)
  have part : c ∈ m.comparisons := by decide
  have names : c.NamesExtra := ⟨rfl, rfl, by decide, by simp [IsQuote, c]⟩
  refine ⟨⟨r, m, read, rfl, part, names⟩, ?_⟩
  obtain ⟨found, -⟩ | ⟨⟨front, q, compared⟩, opened⟩ :=
    (extras_cover_comparisons [text]).1 text List.mem_cons_self r m c read rfl part names rfl
  · exact found
  · have quotes := count_of_opened compared (opened front q compared)
    obtain ⟨-, -, -, rfl | rfl, -, -⟩ := compared
    · exact absurd quotes (by decide)
    · exact absurd quotes (by decide)

/-- The other order asks for an extra as well, and is not found. -/
theorem reversed_comparison_is_missed :
    ¬∀ requirements : List String,
      (∀ text ∈ requirements, ∃ r, Requirement.parse text = .ok r) →
        ∀ text ∈ requirements, ∀ r m c, Requirement.parse text = .ok r → r.marker = some m →
          c ∈ m.comparisons → c.NamesExtra → c.literal ∈ extrasOf requirements := by
  intro covers
  let c : Comparison := ⟨"extra", .compare .equal, "test", true⟩
  let r : Requirement := ⟨"foo", [], [], none, some (.comparison c), "\"test\" == extra"⟩
  have read : Requirement.parse "foo; \"test\" == extra" = .ok r :=
    eq_ok_of_toOption (by decide +kernel)
  have names : c.NamesExtra := ⟨rfl, rfl, by decide, by simp [IsQuote, c]⟩
  have found := covers ["foo; \"test\" == extra"] (by simpa using ⟨r, read⟩) _ List.mem_cons_self
    r _ c read rfl List.mem_cons_self names
  revert found
  decide +kernel

end Metadata

end DepClause
