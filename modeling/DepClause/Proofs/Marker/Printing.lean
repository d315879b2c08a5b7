import Mathlib
import DepClause.Proofs.Marker.Grammar
import DepClause.Proofs.Marker.Regrouping
import DepClause.Proofs.Table
import DepClause.Proofs.Traversal

/-!
# Markers that are written and read again

The printer puts parentheses only around an `or` below an `and`, so a run that was grouped to the
right is written without them and read again as one that is grouped to the left. Nothing else is
lost, if no literal contains the quote that the printer puts around literals.
-/

namespace DepClause

open Marker

/-! ## The tokens of a written marker -/

def MarkerOperator.written : MarkerOperator → List Token
  | .compare op => [.operator op]
  | .isIn => [.isIn]
  | .notIn => [.not, .isIn]

def Comparison.written (c : Comparison) : List Token :=
  if c.reversed then .text c.literal :: (c.operator.written ++ [.word c.variableName])
  else .word c.variableName :: (c.operator.written ++ [.text c.literal])

namespace Marker

/-- The tokens of a part of an `and`. -/
def group (isOr : Bool) (ts : List Token) : List Token :=
  if isOr then .opening :: (ts ++ [.closing]) else ts

def written : Marker → List Token
  | .comparison c => c.written
  | .and l r => group l.isOr l.written ++ .and :: group r.isOr r.written
  | .or l r => l.written ++ .or :: r.written

/-- A name that is read as a variable. -/
structure IsName (name : String) : Prop where
  word : IsWord name.toList
  free : name ∉ ["and", "or", "in", "not"]

end Marker

/-- A comparison that can be read again: its variable goes by its present name, and its literal does
not contain the quote that is put around it. -/
structure Comparison.Writable (c : Comparison) : Prop where
  name : IsName c.variableName
  current : variableNamed c.variableName = c.variableName
  unquoted : '"' ∉ c.literal.toList

namespace Marker

/-! ## What the tokens derive -/

theorem derivesOperator_written (op : MarkerOperator) : DerivesOperator op.written op := by
  cases op with
  | compare op => exact .compare op
  | isIn => exact .isIn
  | notIn => exact .notIn

theorem derivesComparison_written {c : Comparison}
    (h : variableNamed c.variableName = c.variableName) : DerivesComparison c.written c := by
  have ops := derivesOperator_written c.operator
  obtain ⟨name, op, literal, reversed⟩ := c
  cases reversed with
  | false => exact .variableFirst (names_iff.2 h) ops
  | true => exact .textFirst (names_iff.2 h) ops

/-- The tokens of a marker derive it up to the grouping of runs: alone, as a part of an `and`, and
behind another run, which they go on. -/
structure Regroups (m : Marker) : Prop where
  alone : ∃ n, Derives .disjunction m.written n ∧ m.Regrouped n
  part : ∃ n, Derives .conjunction (group m.isOr m.written) n ∧ m.Regrouped n
  behindAnd : ∀ ls l, Derives .conjunction ls l →
    ∃ n, Derives .conjunction (ls ++ .and :: group m.isOr m.written) n ∧
      (Marker.and l m).Regrouped n
  behindOr : ∀ ls l, Derives .disjunction ls l →
    ∃ n, Derives .disjunction (ls ++ .or :: m.written) n ∧ (Marker.or l m).Regrouped n

namespace Regroups

variable {m l r : Marker}

/-- An `and` or a comparison stands without parentheses, also behind an `or`. -/
theorem of_conjunction (plain : m.isOr = false)
    (part : ∃ n, Derives .conjunction m.written n ∧ m.Regrouped n)
    (behindAnd : ∀ ls l, Derives .conjunction ls l →
      ∃ n, Derives .conjunction (ls ++ .and :: m.written) n ∧ (Marker.and l m).Regrouped n) :
    m.Regroups := by
  have bare : group m.isOr m.written = m.written := by rw [group, plain, if_neg Bool.false_ne_true]
  obtain ⟨n, derived, same⟩ := part
  constructor
  · exact ⟨n, .alone derived, same⟩
  · rw [bare]
    exact ⟨n, derived, same⟩
  · rw [bare]
    exact behindAnd
  · intro ls l hl
    exact ⟨.or l n, .or hl derived, .join .or (.refl l) same⟩

/-- An `or` stands in parentheses as a part of an `and`. -/
theorem of_disjunction (isOr : m.isOr = true)
    (alone : ∃ n, Derives .disjunction m.written n ∧ m.Regrouped n)
    (behindOr : ∀ ls l, Derives .disjunction ls l →
      ∃ n, Derives .disjunction (ls ++ .or :: m.written) n ∧ (Marker.or l m).Regrouped n) :
    m.Regroups := by
  obtain ⟨n, derived, same⟩ := alone
  have grouped : Derives .atom (group m.isOr m.written) n := by
    rw [group, isOr, if_pos rfl]
    exact .group derived
  constructor
  · exact ⟨n, derived, same⟩
  · exact ⟨n, .single grouped, same⟩
  · intro ls l hl
    exact ⟨.and l n, .and hl grouped, .join .and (.refl l) same⟩
  · exact behindOr

theorem comparison {c : Comparison} (h : variableNamed c.variableName = c.variableName) :
    (Marker.comparison c).Regroups := by
  have atom : Derives .atom (Marker.comparison c).written (.comparison c) :=
    .comparison (derivesComparison_written h)
  apply of_conjunction rfl
  · exact ⟨_, .single atom, .refl _⟩
  · intro ls l hl
    exact ⟨_, .and hl atom, .refl _⟩

theorem and (hl : l.Regroups) (hr : r.Regroups) : (Marker.and l r).Regroups := by
  apply of_conjunction rfl
  · -- the right part goes on the run that the left part opens
    obtain ⟨l', dl, sl⟩ := hl.part
    obtain ⟨n, derived, same⟩ := hr.behindAnd _ l' dl
    exact ⟨n, derived, (Regrouped.join .and sl (.refl r)).trans same⟩
  · -- both parts go on the run in front, so its grouping moves to the left
    intro ls x hx
    obtain ⟨l', dl, sl⟩ := hl.behindAnd ls x hx
    obtain ⟨n, derived, same⟩ := hr.behindAnd _ l' dl
    refine ⟨n, ?_, ?_⟩
    · simpa [written] using derived
    · have joined : ((x.and l).and r).Regrouped n :=
        (Regrouped.join .and sl (.refl r)).trans same
      exact (Regrouped.assoc .and x l r).symm.trans joined

theorem or (hl : l.Regroups) (hr : r.Regroups) : (Marker.or l r).Regroups := by
  apply of_disjunction rfl
  · obtain ⟨l', dl, sl⟩ := hl.alone
    obtain ⟨n, derived, same⟩ := hr.behindOr _ l' dl
    exact ⟨n, derived, (Regrouped.join .or sl (.refl r)).trans same⟩
  · intro ls x hx
    obtain ⟨l', dl, sl⟩ := hl.behindOr ls x hx
    obtain ⟨n, derived, same⟩ := hr.behindOr _ l' dl
    refine ⟨n, ?_, ?_⟩
    · simpa [written] using derived
    · have joined : ((x.or l).or r).Regrouped n :=
        (Regrouped.join .or sl (.refl r)).trans same
      exact (Regrouped.assoc .or x l r).symm.trans joined

end Regroups

theorem regroups_of_current (m : Marker)
    (h : ∀ c ∈ m.comparisons, variableNamed c.variableName = c.variableName) : m.Regroups := by
  induction m with
  | comparison c => exact .comparison (h c List.mem_cons_self)
  | and l r ihl ihr =>
    apply Regroups.and
    · exact ihl fun c hc => h c (List.mem_append_left _ hc)
    · exact ihr fun c hc => h c (List.mem_append_right _ hc)
  | or l r ihl ihr =>
    apply Regroups.or
    · exact ihl fun c hc => h c (List.mem_append_left _ hc)
    · exact ihr fun c hc => h c (List.mem_append_right _ hc)

/-! ## What the text is lexed into -/

/-- The text is these tokens wherever no word goes on behind it. -/
def Spells (s : List Char) (ts : List Token) : Prop :=
  ∀ rest us, Text.Clear continuesWord rest → Lexes rest us → Lexes (s ++ rest) (ts ++ us)

theorem clear_blank (cs : List Char) : Text.Clear continuesWord (' ' :: cs) :=
  Text.clear_cons cs rfl

/-- A blank may stand between two texts. -/
theorem Spells.append {s t : List Char} {ts us : List Token} (hs : Spells s ts)
    (ht : Spells t us) : Spells (s ++ ' ' :: t) (ts ++ us) := by
  intro rest vs clear lexes
  rw [List.append_assoc, List.append_assoc]
  exact hs (' ' :: (t ++ rest)) (us ++ vs) (clear_blank _) (.blank rfl (ht rest vs clear lexes))

theorem Spells.parenthesized {s : List Char} {ts : List Token} (h : Spells s ts) :
    Spells ('(' :: (s ++ [')'])) (.opening :: (ts ++ [.closing])) := by
  intro rest us _ lexes
  have closing : Lexes (')' :: rest) (.closing :: us) := .token .closing trivial lexes
  have inner := h (')' :: rest) (.closing :: us) (Text.clear_cons rest rfl) closing
  have whole : Lexes (['('] ++ (s ++ ')' :: rest)) (.opening :: (ts ++ .closing :: us)) :=
    .token .opening trivial inner
  simpa using whole

theorem spells_name {name : String} (h : IsName name) : Spells name.toList [.word name] := by
  intro rest us clear lexes
  have spelled : (Token.word name).Spelled name.toList := by
    have := Token.Spelled.word h.word (by rw [String.ofList_toList]; exact h.free)
    rwa [String.ofList_toList] at this
  exact .token spelled clear lexes

theorem spells_literal {literal : String} (h : '"' ∉ literal.toList) :
    Spells ('"' :: (literal.toList ++ ['"'])) [.text literal] := by
  intro rest us _ lexes
  have spelled : (Token.text literal).Spelled ('"' :: (literal.toList ++ ['"'])) := by
    have := Token.Spelled.text (.inl rfl) h
    rwa [String.ofList_toList] at this
  exact .token spelled trivial lexes

/-- No operator goes on with a blank. -/
theorem stops_blank (op : Comparator) (cs : List Char) :
    (Token.operator op).Stops (' ' :: cs) := by
  apply stops_of_front? (s := op.text.toList ++ ' ' :: cs)
  cases op <;> rfl

/-- An operator is always written with a blank behind it. -/
theorem lexes_operator (op : MarkerOperator) {rest : List Char} {us : List Token}
    (h : Lexes rest us) : Lexes (op.text.toList ++ ' ' :: rest) (op.written ++ us) := by
  have blank : Lexes (' ' :: rest) us := .blank rfl h
  have keyword : Lexes (['i', 'n'] ++ ' ' :: rest) (.isIn :: us) :=
    .token .isIn (clear_blank rest) blank
  cases op with
  | compare op => exact .token (.operator op) (stops_blank op rest) blank
  | isIn => exact keyword
  | notIn =>
    have second : Lexes (' ' :: (['i', 'n'] ++ ' ' :: rest)) (.isIn :: us) := .blank rfl keyword
    have first : Lexes (['n', 'o', 't'] ++ ' ' :: (['i', 'n'] ++ ' ' :: rest))
        (.not :: .isIn :: us) := .token .not (clear_blank _) second
    exact first

/-- Two sides with an operator between them. -/
theorem Spells.compare {s t : List Char} {x y : Token} (hs : Spells s [x]) (ht : Spells t [y])
    (op : MarkerOperator) :
    Spells (s ++ ' ' :: (op.text.toList ++ ' ' :: t)) (x :: (op.written ++ [y])) := by
  intro rest us clear lexes
  have right : Lexes (op.text.toList ++ ' ' :: (t ++ rest)) (op.written ++ ([y] ++ us)) :=
    lexes_operator op (ht rest us clear lexes)
  have whole := hs (' ' :: (op.text.toList ++ ' ' :: (t ++ rest))) _ (clear_blank _)
    (.blank rfl right)
  simpa using whole

theorem spells_comparison {c : Comparison} (h : c.Writable) :
    Spells c.render.toList c.written := by
  have name := spells_name h.name
  have literal := spells_literal h.unquoted
  unfold Comparison.render Comparison.written
  cases c.reversed with
  | false => simpa using name.compare literal c.operator
  | true => simpa using literal.compare name c.operator

/-- The text of a part of an `and`. -/
theorem Spells.group {s : String} {ts : List Token} (h : Spells s.toList ts) (isOr : Bool) :
    Spells (enclose isOr s).toList (Marker.group isOr ts) := by
  cases isOr with
  | false => exact h
  | true => simpa [enclose, Marker.group] using h.parenthesized

theorem spells_and : Spells ['a', 'n', 'd'] [.and] := fun _ _ clear lexes =>
  .token .and clear lexes

theorem spells_or : Spells ['o', 'r'] [.or] := fun _ _ clear lexes =>
  .token .or clear lexes

theorem spells_render (m : Marker) (h : ∀ c ∈ m.comparisons, c.Writable) :
    Spells m.render.toList m.written := by
  induction m with
  | comparison c => exact spells_comparison (h c List.mem_cons_self)
  | and l r ihl ihr =>
    have left := (ihl fun c hc => h c (List.mem_append_left _ hc)).group l.isOr
    have right := (ihr fun c hc => h c (List.mem_append_right _ hc)).group r.isOr
    simpa [render, written] using left.append (spells_and.append right)
  | or l r ihl ihr =>
    have left := ihl fun c hc => h c (List.mem_append_left _ hc)
    have right := ihr fun c hc => h c (List.mem_append_right _ hc)
    simpa [render, written] using left.append (spells_or.append right)

/-! ## What was read can be written -/

theorem isName_of_spelled {name : String} {chars : List Char}
    (h : (Token.word name).Spelled chars) : IsName name := by
  cases h with
  | word word free => exact ⟨by rwa [String.toList_ofList], free⟩

/-- The names that took the place of old ones are no old names themselves. -/
theorem renamed_entry {old current : String} (h : (old, current) ∈ renamed) :
    IsName current ∧ renamed.get? current = none := by
  simp only [renamed, List.mem_cons, Prod.mk.injEq, List.not_mem_nil, or_false] at h
  rcases h with ⟨-, rfl⟩ | ⟨-, rfl⟩ | ⟨-, rfl⟩ | ⟨-, rfl⟩ | ⟨-, rfl⟩ | ⟨-, rfl⟩ <;>
    exact ⟨⟨⟨_, _, rfl, rfl, List.all_eq_true.1 rfl⟩, by decide⟩, by decide⟩

theorem isName_variableNamed {word : String} (h : IsName word) :
    IsName (variableNamed word) ∧
      variableNamed (variableNamed word) = variableNamed word := by
  cases hg : renamed.get? word with
  | none =>
    have kept : variableNamed word = word := by rw [variableNamed, hg, Option.getD_none]
    rw [kept, kept]
    exact ⟨h, rfl⟩
  | some current =>
    have changed : variableNamed word = current := by rw [variableNamed, hg, Option.getD_some]
    obtain ⟨name, fixed⟩ := renamed_entry (Table.mem_of_get? hg)
    rw [changed, variableNamed, fixed, Option.getD_none]
    exact ⟨name, rfl⟩

/-- The tokens of a comparison stand together. -/
theorem infix_of_derives {level : Level} {ts : List Token} {m : Marker}
    (h : Derives level ts m) {c : Comparison} (hc : c ∈ m.comparisons) :
    ∃ us, us <:+: ts ∧ DerivesComparison us c := by
  induction h with
  | alone _ ih => exact ih hc
  | single _ ih => exact ih hc
  | @group ts _ _ ih =>
    obtain ⟨us, inside, derived⟩ := ih hc
    have grouped : ts <:+: .opening :: (ts ++ [.closing]) := ⟨[.opening], [.closing], rfl⟩
    exact ⟨us, inside.trans grouped, derived⟩
  | or _ _ ihl ihr | and _ _ ihl ihr =>
    rcases List.mem_append.1 hc with hc | hc
    · obtain ⟨us, inside, derived⟩ := ihl hc
      exact ⟨us, inside.trans (List.prefix_append _ _).isInfix, derived⟩
    · obtain ⟨us, inside, derived⟩ := ihr hc
      refine ⟨us, inside.trans ?_, derived⟩
      exact ((List.suffix_cons _ _).trans (List.suffix_append _ _)).isInfix
  | comparison derived =>
    obtain rfl := List.mem_singleton.1 hc
    exact ⟨_, List.infix_rfl, derived⟩

theorem exists_word_of_derives {level : Level} {ts : List Token} {m : Marker}
    (h : Derives level ts m) :
    ∀ c ∈ m.comparisons, ∃ w, Token.word w ∈ ts ∧ c.variableName = variableNamed w := by
  intro c hc
  obtain ⟨us, inside, derived⟩ := infix_of_derives h hc
  cases derived with
  | @variableFirst w _ _ _ _ named =>
    exact ⟨w, inside.subset (by simp), (names_iff.1 named).symm⟩
  | @textFirst w _ _ _ _ named => exact ⟨w, inside.subset (by simp), (names_iff.1 named).symm⟩

/-- The comparisons that were read have names that can be read again. -/
theorem writable_of_parse {text : String} {m : Marker} (h : parse text = .ok m)
    (unquoted : ∀ c ∈ m.comparisons, '"' ∉ c.literal.toList) :
    ∀ c ∈ m.comparisons, c.Writable := by
  obtain ⟨ts, lexes, derived⟩ := parse_eq_ok_iff.1 h
  intro c hc
  obtain ⟨w, hw, name⟩ := exists_word_of_derives derived c hc
  obtain ⟨chars, spelled⟩ := lexes.spelled _ hw
  obtain ⟨isName, current⟩ := isName_variableNamed (isName_of_spelled spelled)
  rw [← name] at isName current
  exact ⟨isName, current, unquoted c hc⟩

/-- **Written markers mean the same.** Let a marker that was read have no literal with the quote of
the printer in it. Its text is read as a marker that differs from it in nothing but the grouping of
runs, and that has the same value, the same text of a condition or the same failure in every scope.
The two are written alike, so a text that the printer wrote is a fixed point. -/
theorem written_marker_means_same {text : String} {m : Marker} (h : parse text = .ok m)
    (unquoted : ∀ c ∈ m.comparisons, '"' ∉ c.literal.toList) :
    ∃ n, parse m.render = .ok n ∧ m.Regrouped n ∧ n.render = m.render ∧
      ∀ scope, n.outcome scope = m.outcome scope := by
  have writable := writable_of_parse h unquoted
  obtain ⟨n, derived, same⟩ := (regroups_of_current m fun c hc => (writable c hc).current).alone
  have lexes : Lexes m.render.toList m.written := by
    simpa using spells_render m writable [] [] (Text.clear_nil _) .nil
  refine ⟨n, parse_eq_ok_iff.2 ⟨m.written, lexes, derived⟩, same, same.render_eq.2.symm, ?_⟩
  intro scope
  exact (same.outcome_eq scope).symm

/-- A run that is grouped to the right, an old name, and an `or` in parentheses. -/
theorem written_marker_means_same_of_nested :
    let first : Marker := .comparison ⟨"v", .compare .atMost, "3", true⟩
    let second : Marker := .comparison ⟨"os_name", .compare .equal, "nt", false⟩
    let third : Marker := .comparison ⟨"x", .notIn, "a b", false⟩
    let fourth : Marker := .comparison ⟨"y", .isIn, "t", false⟩
    let m : Marker := .and first (.and second (.or third fourth))
    let n : Marker := .and (.and first second) (.or third fourth)
    parse "'3'<=v and(os.name=='nt' and(x not in'a b'or y in't'))" = .ok m ∧
      m.render = "\"3\" <= v and os_name == \"nt\" and (x not in \"a b\" or y in \"t\")" ∧
      parse m.render = .ok n ∧ ∀ scope, n.outcome scope = m.outcome scope := by
  intro first second third fourth m n
  have read : parse "'3'<=v and(os.name=='nt' and(x not in'a b'or y in't'))" = .ok m :=
    eq_ok_of_toOption (by decide +kernel)
  have text : m.render =
      "\"3\" <= v and os_name == \"nt\" and (x not in \"a b\" or y in \"t\")" := by decide
  have again : parse m.render = .ok n := by
    rw [text]
    exact eq_ok_of_toOption (by decide +kernel)
  obtain ⟨k, hk, -, -, same⟩ := written_marker_means_same read (by decide)
  obtain rfl : n = k := Except.ok.inj (again.symm.trans hk)
  exact ⟨read, text, again, same⟩

end Marker

end DepClause
