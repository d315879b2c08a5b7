import Mathlib
import DepClause.Proofs.Marker.Evaluation
import DepClause.Proofs.Marker.Grouping

/-!
# What the text of a condition says

The text of a condition is the row of its atoms, so it forgets how they were grouped. If no `or`
stands below an `and` and the capabilities are plain, the text determines the value of the condition
and of the marker that it stands for. Where an `or` does stand below an `and`, the text is that of
another condition as well.
-/

namespace DepClause

/-- A condition on one capability. -/
inductive Atom where
  | present (capability : String)
  | absent (capability : String)
  deriving DecidableEq, Repr

namespace Atom

def keyword : Atom → String
  | .present _ => "with"
  | .absent _ => "without"

def capability : Atom → String
  | .present c => c
  | .absent c => c

def text (a : Atom) : String := a.keyword ++ " " ++ a.capability

end Atom

def Condition.formula : Condition → Formula Atom
  | .present c => .leaf (.present c)
  | .absent c => .leaf (.absent c)
  | .both l r => .join .and l.formula r.formula
  | .either l r => .join .or l.formula r.formula

/-- The value of a condition when its atoms have values. -/
def Condition.value (holds : Atom → Bool) (c : Condition) : Bool := c.formula.value holds

/-- The value of a comparison when the atoms have values. A comparison that fails has none; `other`
gives it one. -/
def Comparison.value (scope : Scope) (holds : Atom → Bool) (other : Comparison → Bool)
    (c : Comparison) : Bool :=
  match c.evaluate scope with
  | .ok (.known b) => b
  | .ok (.deferred d) => d.value holds
  | .error _ => other c

/-- The value of a marker when the atoms of its conditions have values. -/
def Marker.value (scope : Scope) (holds : Atom → Bool) (other : Comparison → Bool) (m : Marker) :
    Bool :=
  m.occurrences.value fun o => o.comparison.value scope holds other

theorem Condition.render_eq (c : Condition) : c.render = c.formula.render Atom.text := by
  induction c with
  | present c => rfl
  | absent c => rfl
  | both l r ihl ihr => rw [render, formula, Formula.render, ihl, ihr]; rfl
  | either l r ihl ihr => rw [render, formula, Formula.render, ihl, ihr]; rfl

theorem Formula.value_condition {α : Type} (leaf : α → Condition) (holds : Atom → Bool)
    (f : Formula α) : (f.condition leaf).value holds = f.value fun a => (leaf a).value holds := by
  induction f with
  | leaf a => rfl
  | join op l r ihl ihr =>
    rw [Formula.value, ← ihl, ← ihr]
    cases op <;> rfl

/-- A marker has the value of its condition. -/
theorem Marker.value_of_deferred {scope : Scope} {m : Marker} {c : Condition}
    (h : m.evaluate scope = .ok (.deferred c)) (holds : Atom → Bool)
    (other : Comparison → Bool) : m.value scope holds other = c.value holds := by
  obtain ⟨r, hr⟩ := exists_residue h []
  have agrees : Agrees scope m.occurrences fun o => o.comparison.value scope holds other := by
    intro o _ b ho
    simp only [Comparison.value, Occurrence.known?_eq_some_iff.1 ho]
  have leaf : ∀ x ∈ r.leaves, x.1.comparison.value scope holds other = x.2.value holds := by
    intro x hx
    simp only [Comparison.value, hr.deferred x hx]
  calc
    m.value scope holds other = r.value fun x => x.1.comparison.value scope holds other :=
      hr.value _ agrees
    _ = r.value fun x => x.2.value holds := Formula.value_congr leaf
    _ = c.value holds := by rw [hr.condition, Formula.value_condition]

/-! ## The words of a text -/

/-- What stands between the blanks of a text. -/
def words (s : String) : List String := (s.toList.splitOn ' ').map String.ofList

theorem words_blank (s t : String) : words (s ++ " " ++ t) = words s ++ words t := by
  simp [words, List.splitOn_append_cons_self]

theorem words_of_no_blank {s : String} (h : ' ' ∉ s.toList) : words s = [s] := by
  rw [words, List.splitOn_eq_singleton h, List.map_singleton, String.ofList_toList]

theorem words_or (s t : String) : words (s ++ " or " ++ t) = words s ++ "or" :: words t := by
  have h : s ++ " or " ++ t = s ++ " " ++ ("or" ++ " " ++ t) := by
    rw [← String.toList_inj]
    simp
  rw [h, words_blank, words_blank, words_of_no_blank (s := "or") (by simp)]
  rfl

theorem words_inj {s t : String} (h : words s = words t) : s = t := by
  have hst : s.toList.splitOn ' ' = t.toList.splitOn ' ' :=
    List.map_inj_right (fun _ _ => String.ofList_injective) |>.1 h
  rw [← String.toList_inj]
  calc
    s.toList = [' '].intercalate (s.toList.splitOn ' ') := (List.intercalate_splitOn ' ').symm
    _ = [' '].intercalate (t.toList.splitOn ' ') := by rw [hst]
    _ = t.toList := List.intercalate_splitOn ' '

/-! ## Reading a row back -/

/-- A capability that can be told from what is around it: no word of it is a keyword, and it does
not end with the word `or`. -/
structure Atom.Plain (a : Atom) : Prop where
  present : "with" ∉ words a.capability
  absent : "without" ∉ words a.capability
  last : (words a.capability).getLast? ≠ some "or"

theorem Atom.eq_of_parts {a b : Atom} (hk : a.keyword = b.keyword)
    (hc : a.capability = b.capability) : a = b := by
  cases a <;> cases b <;> simp_all [keyword, capability]

instance (a : Atom) : Decidable a.Plain :=
  decidable_of_iff ("with" ∉ words a.capability ∧ "without" ∉ words a.capability ∧
      (words a.capability).getLast? ≠ some "or")
    ⟨fun ⟨hp, ha, hl⟩ => ⟨hp, ha, hl⟩, fun ⟨hp, ha, hl⟩ => ⟨hp, ha, hl⟩⟩

/-- Whether a word begins an atom. -/
def isKeyword (w : String) : Bool := w == "with" || w == "without"

theorem Atom.isKeyword_keyword (a : Atom) : isKeyword a.keyword = true := by
  cases a <;> rfl

theorem Atom.words_text (a : Atom) : words a.text = a.keyword :: words a.capability := by
  have h : ' ' ∉ a.keyword.toList := by cases a <;> simp [keyword]
  rw [text, words_blank, words_of_no_blank h]
  rfl

/-- The words of the rest of a row. -/
def restWords : List (Connective × Atom) → List String
  | [] => []
  | (.and, a) :: xs => words a.text ++ restWords xs
  | (.or, a) :: xs => "or" :: (words a.text ++ restWords xs)

theorem restWords_append (xs ys : List (Connective × Atom)) :
    restWords (xs ++ ys) = restWords xs ++ restWords ys := by
  induction xs with
  | nil => rfl
  | cons x xs ih =>
    obtain ⟨op, a⟩ := x
    cases op with
    | and => simp [restWords, ih]
    | or => simp [restWords, ih]

theorem words_render (f : Formula Atom) :
    words (f.render Atom.text) = words f.first.text ++ restWords f.rest := by
  induction f with
  | leaf a => simp [Formula.render, Formula.first, Formula.rest, restWords]
  | join op l r ihl ihr =>
    rw [Formula.render, Formula.first, Formula.rest, restWords_append]
    cases op with
    | and => simp [Connective.text, words_blank, ihl, ihr, restWords]
    | or => simp [Connective.text, words_or, ihl, ihr, restWords]

/-- The words of a row up to the next keyword are those of the capability, and the `or` behind it
if there is one. -/
theorem takeWhile_capability {a : Atom} (h : a.Plain) (xs : List (Connective × Atom)) :
    ∃ e, (e = [] ∨ e = ["or"]) ∧
      (words a.capability ++ restWords xs).takeWhile (!isKeyword ·) = words a.capability ++ e := by
  have plain : ∀ w ∈ words a.capability, (!isKeyword w) = true := by
    intro w hw
    have hp : w ≠ "with" := fun he => h.present (he ▸ hw)
    have ha : w ≠ "without" := fun he => h.absent (he ▸ hw)
    simp [isKeyword, hp, ha]
  rw [List.takeWhile_append_of_pos plain]
  cases xs with
  | nil => exact ⟨[], .inl rfl, rfl⟩
  | cons x xs =>
    obtain ⟨op, c⟩ := x
    cases op with
    | and => exact ⟨[], .inl rfl, by simp [restWords, c.words_text, c.isKeyword_keyword]⟩
    | or =>
      have hor : isKeyword "or" = false := rfl
      exact ⟨["or"], .inr rfl, by simp [restWords, c.words_text, c.isKeyword_keyword, hor]⟩

/-- The first atom of a row is read back from the words. -/
theorem first_eq_of_words_eq {a b : Atom} {xs ys : List (Connective × Atom)} (ha : a.Plain)
    (hb : b.Plain) (h : words a.text ++ restWords xs = words b.text ++ restWords ys) :
    a = b ∧ restWords xs = restWords ys := by
  rw [a.words_text, b.words_text, List.cons_append, List.cons_append, List.cons.injEq] at h
  obtain ⟨hkey, h⟩ := h
  obtain ⟨e, he, hea⟩ := takeWhile_capability ha xs
  obtain ⟨e', he', heb⟩ := takeWhile_capability hb ys
  have hcap : words a.capability ++ e = words b.capability ++ e' := by rw [← hea, ← heb, h]
  have hwords : words a.capability = words b.capability := by
    rcases he with rfl | rfl <;> rcases he' with rfl | rfl
    · simpa using hcap
    · rw [List.append_nil] at hcap
      exact absurd (by rw [hcap, List.getLast?_concat]) ha.last
    · rw [List.append_nil] at hcap
      exact absurd (by rw [← hcap, List.getLast?_concat]) hb.last
    · simpa using hcap
  rw [hwords] at h
  exact ⟨Atom.eq_of_parts hkey (words_inj hwords), List.append_cancel_left h⟩

theorem restWords_cons (op : Connective) (a : Atom) (xs : List (Connective × Atom)) :
    ∃ w ws, restWords ((op, a) :: xs) = w :: ws ∧ (isKeyword w = true ↔ op = .and) := by
  cases op with
  | and =>
    refine ⟨a.keyword, words a.capability ++ restWords xs, ?_, ?_⟩
    · rw [restWords, a.words_text]
      rfl
    · simp [a.isKeyword_keyword]
  | or => exact ⟨"or", _, rfl, by simp [isKeyword]⟩

/-- The first connective of a row is read back from the words. -/
theorem connective_eq_of_restWords {op op' : Connective} {a b : Atom}
    {xs ys : List (Connective × Atom)}
    (h : restWords ((op, a) :: xs) = restWords ((op', b) :: ys)) : op = op' := by
  obtain ⟨w, ws, hw, hop⟩ := restWords_cons op a xs
  obtain ⟨w', ws', hw', hop'⟩ := restWords_cons op' b ys
  rw [hw, hw', List.cons.injEq] at h
  rw [h.1, hop'] at hop
  cases op <;> cases op' <;> simp_all

/-- **Rows are read back from their words.** -/
theorem eq_of_words_eq {a b : Atom} {xs ys : List (Connective × Atom)} (ha : a.Plain)
    (hb : b.Plain) (hxs : ∀ x ∈ xs, x.2.Plain) (hys : ∀ y ∈ ys, y.2.Plain)
    (h : words a.text ++ restWords xs = words b.text ++ restWords ys) : a = b ∧ xs = ys := by
  induction xs generalizing a b ys with
  | nil =>
    obtain ⟨hab, hrest⟩ := first_eq_of_words_eq ha hb h
    cases ys with
    | nil => exact ⟨hab, rfl⟩
    | cons y ys =>
      obtain ⟨w, ws, hw, _⟩ := restWords_cons y.1 y.2 ys
      rw [hw] at hrest
      cases hrest
  | cons x xs ih =>
    obtain ⟨hab, hrest⟩ := first_eq_of_words_eq ha hb h
    cases ys with
    | nil =>
      obtain ⟨w, ws, hw, _⟩ := restWords_cons x.1 x.2 xs
      rw [hw] at hrest
      cases hrest
    | cons y ys =>
      obtain ⟨op, c⟩ := x
      obtain ⟨op', d⟩ := y
      obtain rfl := connective_eq_of_restWords hrest
      have htail : words c.text ++ restWords xs = words d.text ++ restWords ys := by
        cases op with
        | and => exact hrest
        | or => exact (List.cons.inj hrest).2
      obtain ⟨rfl, rfl⟩ := ih (hxs _ List.mem_cons_self) (hys _ List.mem_cons_self)
        (fun x hx => hxs x (List.mem_cons_of_mem _ hx))
        (fun y hy => hys y (List.mem_cons_of_mem _ hy)) htail
      exact ⟨hab, rfl⟩

/-! ## What the text determines -/

/-- A condition that can be read back: no `or` stands below an `and`, and its capabilities are
plain. -/
structure Condition.Readable (c : Condition) : Prop where
  grouped : c.formula.Grouped
  plain : ∀ a ∈ c.formula.leaves, a.Plain

instance (c : Condition) : Decidable c.Readable :=
  decidable_of_iff (c.formula.Grouped ∧ ∀ a ∈ c.formula.leaves, a.Plain)
    ⟨fun ⟨hg, hp⟩ => ⟨hg, hp⟩, fun ⟨hg, hp⟩ => ⟨hg, hp⟩⟩

/-- The text of plain capabilities determines the row of the condition. -/
theorem Formula.row_of_render {f g : Formula Atom} (hf : ∀ a ∈ f.leaves, a.Plain)
    (hg : ∀ a ∈ g.leaves, a.Plain) (h : f.render Atom.text = g.render Atom.text) :
    f.first = g.first ∧ f.rest = g.rest := by
  rw [leaves_eq] at hf hg
  have hwords := congrArg words h
  rw [words_render, words_render] at hwords
  exact eq_of_words_eq (hf _ List.mem_cons_self) (hg _ List.mem_cons_self)
    (fun x hx => hf x.2 (List.mem_cons_of_mem _ (List.mem_map_of_mem hx)))
    (fun y hy => hg y.2 (List.mem_cons_of_mem _ (List.mem_map_of_mem hy))) hwords

theorem Condition.value_of_render {c d : Condition} (hc : c.Readable) (hd : d.Readable)
    (h : c.render = d.render) (holds : Atom → Bool) : c.value holds = d.value holds := by
  rw [c.render_eq, d.render_eq] at h
  obtain ⟨hfirst, hrest⟩ := Formula.row_of_render hc.plain hd.plain h
  calc
    c.value holds = c.formula.readFlat holds := (Formula.readFlat_of_grouped hc.grouped).symm
    _ = d.formula.readFlat holds := by rw [Formula.readFlat, Formula.readFlat, hfirst, hrest]
    _ = d.value holds := Formula.readFlat_of_grouped hd.grouped

/-- Trees with one row have one text. -/
theorem Formula.render_of_row {f g : Formula Atom} (hfirst : f.first = g.first)
    (hrest : f.rest = g.rest) : f.render Atom.text = g.render Atom.text := by
  refine words_inj ?_
  rw [words_render, words_render, hfirst, hrest]

def Atom.condition : Atom → Condition
  | .present c => .present c
  | .absent c => .absent c

theorem Formula.formula_condition (f : Formula Atom) :
    (f.condition Atom.condition).formula = f := by
  induction f with
  | leaf a => cases a <;> rfl
  | join op l r ihl ihr =>
    cases op with
    | and => rw [condition, Connective.condition, Condition.formula, ihl, ihr]
    | or => rw [condition, Connective.condition, Condition.formula, ihl, ihr]

/-- **A lost grouping is another condition.** If an `or` stands below an `and` and the atoms differ
from each other, a condition with another value has the same text. -/
theorem Condition.exists_same_text {c : Condition} (hd : c.formula.leaves.Nodup)
    (h : ¬c.formula.Grouped) :
    ∃ d : Condition, d.formula.Grouped ∧ d.render = c.render ∧
      ∃ holds, d.value holds ≠ c.value holds := by
  obtain ⟨g, hg, hfirst, hrest⟩ := c.formula.exists_grouped
  obtain ⟨holds, hne⟩ := Formula.exists_readFlat_ne hd h
  refine ⟨g.condition Atom.condition, ?_, ?_, holds, ?_⟩
  · rw [g.formula_condition]
    exact hg
  · rw [render_eq, render_eq, g.formula_condition]
    exact Formula.render_of_row hfirst hrest
  · rw [value, g.formula_condition, ← Formula.readFlat_of_grouped hg]
    rwa [Formula.readFlat, hfirst, hrest]

namespace Marker

/-- **The text determines the value** of markers whose conditions can be read back. It keeps no
grouping: markers that differ only in the grouping of an `or` and an `and` have one text, and the
text of a condition with an `or` below an `and` is that of a condition with another value. -/
theorem text_determines_value (scope : Scope) :
    (∀ (m n : Marker) (c d : Condition), m.evaluate scope = .ok (.deferred c) →
      n.evaluate scope = .ok (.deferred d) → c.render = d.render → c.Readable → d.Readable →
        ∀ holds other, m.value scope holds other = n.value scope holds other) ∧
    (∀ (l m r : Marker) (x y z : Condition), l.evaluate scope = .ok (.deferred x) →
      m.evaluate scope = .ok (.deferred y) → r.evaluate scope = .ok (.deferred z) →
        ∃ c d, (Marker.and (.or l m) r).evaluate scope = .ok (.deferred c) ∧
          (Marker.or l (.and m r)).evaluate scope = .ok (.deferred d) ∧ c.render = d.render) ∧
    ∀ (m : Marker) (c : Condition), m.evaluate scope = .ok (.deferred c) →
      c.formula.leaves.Nodup → ¬c.formula.Grouped →
        ∃ d : Condition, d.formula.Grouped ∧ d.render = c.render ∧
          ∃ holds, ∀ other, d.value holds ≠ m.value scope holds other := by
  refine ⟨?_, ?_, ?_⟩
  · intro m n c d hm hn htext hc hd holds other
    rw [value_of_deferred hm, value_of_deferred hn]
    exact Condition.value_of_render hc hd htext holds
  · intro l m r x y z hl hm hr
    refine ⟨.both (.either x y) z, .either x (.both y z), ?_, ?_, ?_⟩
    · simp [evaluate, hl, hm, hr, Verdict.andThen, Verdict.orElse]
    · simp [evaluate, hl, hm, hr, Verdict.andThen, Verdict.orElse]
    · simp [Condition.render, String.append_assoc]
  · intro m c hm hnodup hgrouped
    obtain ⟨d, hd, htext, holds, hne⟩ := Condition.exists_same_text hnodup hgrouped
    refine ⟨d, hd, htext, holds, fun other => ?_⟩
    rwa [value_of_deferred hm]

/-- Conjunctions of the same comparisons have one text and one value however they are nested. -/
theorem text_determines_value_of_nesting :
    let scope : Scope := ⟨[], [], [("python_version", .ordered "python(abi)")]⟩
    let least : Marker := .comparison ⟨"python_version", .compare .atLeast, "3.8", false⟩
    let other : Marker := .comparison ⟨"python_version", .compare .notEqual, "3.9", false⟩
    let most : Marker := .comparison ⟨"python_version", .compare .less, "4", false⟩
    ∀ holds rest, (Marker.and least (.and other most)).value scope holds rest =
      (Marker.and (.and least other) most).value scope holds rest := by
  intro scope least other most
  refine (text_determines_value scope).1 _ _
    (.both (.present "python(abi) >= 3.8")
      (.both (.absent "python(abi) = 3.9") (.present "python(abi) < 4")))
    (.both (.both (.present "python(abi) >= 3.8") (.absent "python(abi) = 3.9"))
      (.present "python(abi) < 4"))
    (by cbv) (by cbv) (by cbv) (by decide) (by decide)

/-- Pairs of markers with one text and two values: once the grouping is lost, and once a literal reads
like a condition. -/
theorem text_loses_grouping :
    let scope : Scope := ⟨[], [],
      [("platform_machine", .equality "python(\x7barch\x7d)" "arch"),
        ("platform_release", .ordered "kernel")]⟩
    let machine (literal : String) : Marker :=
      .comparison ⟨"platform_machine", .compare .equal, literal, false⟩
    let kernel : Marker := .comparison ⟨"platform_release", .compare .greater, "5", false⟩
    let sameTextOtherValue (m n : Marker) : Prop :=
      ∃ c d, m.evaluate scope = .ok (.deferred c) ∧ n.evaluate scope = .ok (.deferred d) ∧
        c.render = d.render ∧ ∃ holds, ∀ other, m.value scope holds other ≠ n.value scope holds other
    sameTextOtherValue (.and (.or (machine "a") (machine "b")) kernel)
        (.or (machine "a") (.and (machine "b") kernel)) ∧
      sameTextOtherValue (machine "a) with python(b") (.and (machine "a") (machine "b")) := by
  intro scope machine kernel sameTextOtherValue
  have differ : ∀ (m n : Marker) (c d : Condition), m.evaluate scope = .ok (.deferred c) →
      n.evaluate scope = .ok (.deferred d) → c.render = d.render →
      (∃ holds, c.value holds ≠ d.value holds) → sameTextOtherValue m n := by
    rintro m n c d hm hn htext ⟨holds, hne⟩
    refine ⟨c, d, hm, hn, htext, holds, fun other => ?_⟩
    rwa [value_of_deferred hm, value_of_deferred hn]
  constructor
  · refine differ _ _ (.both (.either (.present "python(a)") (.present "python(b)"))
        (.present "kernel > 5"))
      (.either (.present "python(a)") (.both (.present "python(b)") (.present "kernel > 5")))
      (by cbv) (by cbv) (by cbv) ⟨(· == .present "python(a)"), by decide⟩
  · refine differ _ _ (.present "python(a) with python(b)")
      (.both (.present "python(a)") (.present "python(b)"))
      (by cbv) (by cbv) (by cbv) ⟨(· == .present "python(a) with python(b)"), by decide⟩

end Marker

end DepClause
