import DepClause.Proofs.Marker.Finality
import DepClause.Proofs.Marker.Regrouping

/-!
# What a marker mentions

The value of a marker depends on nothing but the variables that stand in it, and on the active
extras only if `extra` is one of them, of which it sees no more than the set of their normal forms.
So a requirement whose marker does not mention `extra` is converted alike whatever extras are
active.
-/

namespace DepClause

namespace Marker

def Mentions (m : Marker) (name : String) : Prop := ∃ c ∈ m.comparisons, c.variableName = name

theorem mentions_comparison {c : Comparison} {name : String} :
    (comparison c).Mentions name ↔ c.variableName = name := by
  simp [Mentions, comparisons]

theorem mentions_join {op : Connective} {l r : Marker} {name : String} :
    (op.marker l r).Mentions name ↔ l.Mentions name ∨ r.Mentions name := by
  simp only [Mentions, comparisons_join, List.mem_append, or_and_right, exists_or]

end Marker

/-- Two scopes that agree on everything that a marker mentions. -/
structure Scope.AgreeOn (m : Marker) (s t : Scope) : Prop where
  environment : ∀ name, m.Mentions name → s.environment.get? name = t.environment.get? name
  capabilities : ∀ name, m.Mentions name → s.capabilities.get? name = t.capabilities.get? name
  extras : m.Mentions "extra" → ∀ extra, extra ∈ s.extras ↔ extra ∈ t.extras

namespace Scope.AgreeOn

variable {s t : Scope} {l r : Marker} {op : Connective}

theorem left (h : AgreeOn (op.marker l r) s t) : AgreeOn l s t where
  environment name hn := h.environment name (Marker.mentions_join.2 (.inl hn))
  capabilities name hn := h.capabilities name (Marker.mentions_join.2 (.inl hn))
  extras hn := h.extras (Marker.mentions_join.2 (.inl hn))

theorem right (h : AgreeOn (op.marker l r) s t) : AgreeOn r s t where
  environment name hn := h.environment name (Marker.mentions_join.2 (.inr hn))
  capabilities name hn := h.capabilities name (Marker.mentions_join.2 (.inr hn))
  extras hn := h.extras (Marker.mentions_join.2 (.inr hn))

end Scope.AgreeOn

namespace Comparison

/-- Of the active extras a comparison sees which ones there are, not their order or number. -/
theorem meetsExtras_congr (c : Comparison) {extras others : List String}
    (h : ∀ extra, extra ∈ extras ↔ extra ∈ others) :
    c.meetsExtras extras = c.meetsExtras others := by
  have same : ∀ extra, extras.contains extra = others.contains extra := by
    intro extra
    rw [Bool.eq_iff_iff, List.contains_iff_mem, List.contains_iff_mem]
    exact h extra
  simp only [meetsExtras, same]

theorem evaluate_congr {c : Comparison} {s t : Scope} (h : Scope.AgreeOn (.comparison c) s t) :
    c.evaluate s = c.evaluate t := by
  have mentioned : (Marker.comparison c).Mentions c.variableName := Marker.mentions_comparison.2 rfl
  by_cases hx : c.variableName = "extra"
  · have same := h.extras (Marker.mentions_comparison.2 hx)
    rw [evaluate_extra hx, evaluate_extra hx, c.meetsExtras_congr same]
  · simp only [evaluate, if_neg hx, h.environment _ mentioned, h.capabilities _ mentioned]

end Comparison

theorem Marker.evaluate_congr {m : Marker} {s t : Scope} (h : Scope.AgreeOn m s t) :
    m.evaluate s = m.evaluate t := by
  induction m using connective_induction with
  | comparison c => exact Comparison.evaluate_congr h
  | join op l r ihl ihr =>
    have left := ihl h.left
    have right := ihr h.right
    cases op with
    | and => simp only [Connective.marker, evaluate, left, right]
    | or => simp only [Connective.marker, evaluate, left, right]

/-! ## Requirements -/

namespace Converter

/-- A requirement whose marker is evaluated alike is converted alike, with the same log entries. -/
theorem convertOne_of_agree {c d : Converter} {text : String} {extras others : List String}
    (template : d.packageTemplate = c.packageTemplate) (style : d.style = c.style)
    (h : ∀ r m, Requirement.parse text = .ok r → r.marker = some m →
      Scope.AgreeOn m (.of d.environment others d.capabilities)
        (.of c.environment extras c.capabilities)) :
    d.convertOne text others = c.convertOne text extras := by
  apply convertOne_congr template style
  intro r hr
  unfold verdict
  cases hm : r.marker with
  | none => rfl
  | some m => exact Marker.evaluate_congr (h r m hr hm)

/-- Extras that are not asked for do not matter. -/
theorem convertOne_of_not_mentioned {c : Converter} {text : String}
    (h : ∀ r m, Requirement.parse text = .ok r → r.marker = some m → ¬m.Mentions "extra")
    (extras others : List String) : c.convertOne text others = c.convertOne text extras := by
  apply convertOne_of_agree rfl rfl
  intro r m hr hm
  constructor
  · exact fun _ _ => rfl
  · exact fun _ _ => rfl
  · exact fun mentioned => absurd mentioned (h r m hr hm)

end Converter

/-- **Evaluation reads only what the marker mentions.** Let two scopes agree on the variables of a
marker, and, if `extra` is one of them, on the set of the normal forms of the active extras. The
marker has the same value or the same failure in both, and a requirement with it is converted alike,
log entries included. A requirement whose marker does not mention `extra`, or that has none, is
converted alike under all extras. -/
theorem Marker.evaluation_reads_mentioned {m : Marker} {environment environment' : Table String}
    {extras extras' : List String} {capabilities capabilities' : Table Capability}
    (he : ∀ name, m.Mentions name → environment.get? name = environment'.get? name)
    (hc : ∀ name, m.Mentions name → capabilities.get? name = capabilities'.get? name)
    (hx : m.Mentions "extra" →
      ∀ extra, extra ∈ extras.map Extra.normalize ↔ extra ∈ extras'.map Extra.normalize) :
    m.evaluate (.of environment extras capabilities) =
        m.evaluate (.of environment' extras' capabilities') ∧
      (∀ (template : String) (style : ClauseStyle) (text : String) (r : Requirement),
        Requirement.parse text = .ok r → r.marker = some m →
          (Converter.mk environment capabilities template style).convertOne text extras =
            (Converter.mk environment' capabilities' template style).convertOne text extras') ∧
      ∀ (c : Converter) (text : String),
        (∀ r n, Requirement.parse text = .ok r → r.marker = some n → ¬n.Mentions "extra") →
          ∀ active others, c.convertOne text active = c.convertOne text others := by
  have agree : Scope.AgreeOn m (.of environment extras capabilities)
      (.of environment' extras' capabilities') := ⟨he, hc, hx⟩
  refine ⟨evaluate_congr agree, ?_, ?_⟩
  · intro template style text r hr hm
    refine Converter.convertOne_of_agree (d := ⟨environment, capabilities, template, style⟩)
      (c := ⟨environment', capabilities', template, style⟩) rfl rfl ?_
    intro s n hs hn
    obtain rfl : r = s := Except.ok.inj (hr.symm.trans hs)
    obtain rfl : m = n := Option.some.inj (hm.symm.trans hn)
    exact agree
  · intro c text unasked active others
    exact Converter.convertOne_of_not_mentioned unasked others active

/-- Two spellings of the same extras, and two machines that differ in what is not asked for. -/
theorem Marker.evaluation_reads_mentioned_of_spellings :
    let here : Table String := [("os_name", "posix"), ("sys_platform", "linux")]
    let there : Table String := [("sys_platform", "darwin"), ("os_name", "posix")]
    let m := Marker.and (.comparison ⟨"extra", .compare .equal, "Foo-Bar", false⟩)
      (.comparison ⟨"os_name", .compare .notEqual, "nt", false⟩)
    (∀ extra, extra ∈ ["foo.bar", "x"].map Extra.normalize ↔
        extra ∈ ["X", "FOO__Bar", "x"].map Extra.normalize) ∧
      m.evaluate (.of here ["foo.bar", "x"] [("sys_platform", .ordered "os")]) =
        m.evaluate (.of there ["X", "FOO__Bar", "x"] []) := by
  intro here there m
  have mentioned : ∀ name, m.Mentions name → name = "extra" ∨ name = "os_name" := by
    rintro name ⟨c, hc, rfl⟩
    have : c ∈ [_, _] := hc
    simp only [List.mem_cons, List.not_mem_nil, or_false] at this
    rcases this with rfl | rfl
    · exact .inl rfl
    · exact .inr rfl
  have first : ["foo.bar", "x"].map Extra.normalize = ["foo-bar", "x"] := by decide +kernel
  have second : ["X", "FOO__Bar", "x"].map Extra.normalize = ["x", "foo-bar", "x"] := by
    decide +kernel
  have same : ∀ extra, extra ∈ ["foo.bar", "x"].map Extra.normalize ↔
      extra ∈ ["X", "FOO__Bar", "x"].map Extra.normalize := by
    intro extra
    rw [first, second]
    grind
  refine ⟨same, (Marker.evaluation_reads_mentioned ?_ ?_ fun _ => same).1⟩
  · intro name h
    rcases mentioned name h with rfl | rfl <;> decide
  · intro name h
    rcases mentioned name h with rfl | rfl <;> decide

end DepClause
