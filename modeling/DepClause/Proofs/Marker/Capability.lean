import DepClause.Proofs.Marker.Mention
import DepClause.Proofs.Table
import DepClause.Proofs.Template

/-!
# Templates of checked rules

A rule is checked for having one placeholder, not for having its braces matched. So a marker that is
evaluated with checked rules can fail for a template, but for nothing else about it than a brace
without its partner.
-/

namespace DepClause

/-! ## Checked rules -/

namespace CapabilityRule

theorem resolve_equality {name template : String} {capability : Capability}
    (h : (equality template).resolve name = .ok capability) :
    ∃ parameter, Template.placeholders template = [parameter] ∧
      capability = .equality template parameter := by
  unfold resolve at h
  dsimp only at h
  split at h
  · next parameter hp =>
    cases h
    exact ⟨parameter, hp, rfl⟩
  · cases h

theorem resolve_ordered {name given : String} {capability : Capability}
    (h : (ordered given).resolve name = .ok capability) : capability = .ordered (trim given) := by
  unfold resolve at h
  dsimp only at h
  split at h
  · cases h
  · cases h
    rfl

/-- The capabilities stand under the names of their rules. -/
theorem get?_resolveAll {rules : Table CapabilityRule} {capabilities : Table Capability}
    (h : resolveAll rules = .ok capabilities) (name : String) :
    (rules.get? name = none ∧ capabilities.get? name = none) ∨
      ∃ rule capability, rules.get? name = some rule ∧ capabilities.get? name = some capability ∧
        rule.resolve name = .ok capability := by
  induction rules generalizing capabilities with
  | nil =>
    cases h
    exact .inl ⟨rfl, rfl⟩
  | cons entry rules ih =>
    obtain ⟨n, rule⟩ := entry
    obtain ⟨⟨m, capability⟩, rest, hc, hr, rfl⟩ := mapM_cons_eq_ok_iff.1 h
    obtain ⟨found, hf, he⟩ := bind_eq_ok_iff.1 hc
    cases he
    by_cases hn : n = name
    · subst hn
      refine .inr ⟨rule, capability, ?_, ?_, hf⟩ <;> simp [Table.get?]
    · simpa only [Table.get?, if_neg hn] using ih hr

end CapabilityRule

/-! ## Steps that read no template -/

/-- A step that does not fail for a template. -/
def TemplateFree {α : Type} (x : Except Failure α) : Prop :=
  ∀ template fault, x ≠ .error (.badTemplate template fault)

namespace TemplateFree

variable {α β : Type} {x : Except Failure α} {f : α → Except Failure β}

theorem ok (a : α) : TemplateFree (.ok a) := by
  intro template fault h
  cases h

theorem bind (hx : TemplateFree x) (hf : ∀ a, TemplateFree (f a)) : TemplateFree (x >>= f) := by
  intro template fault h
  rcases bind_eq_error_iff.1 h with h | ⟨a, _, h⟩
  · exact hx template fault h
  · exact hf a template fault h

theorem map (g : α → β) (hx : TemplateFree x) : TemplateFree (x.map g) := by
  intro template fault h
  cases x with
  | ok a => cases h
  | error e =>
    cases h
    exact hx template fault rfl

theorem parse (text : String) : TemplateFree (Version.parse text) := by
  intro template fault h
  unfold Version.parse at h
  split at h <;> cases h

theorem upperBound (v : Version) (input : Option String) :
    TemplateFree (Specifier.upperBound v input) := by
  intro template fault h
  unfold Specifier.upperBound at h
  split at h <;> cases h

theorem contains (s : Specifier) (candidate : String) : TemplateFree (s.contains candidate) := by
  unfold Specifier.contains
  split
  · exact ok _
  · refine (parse candidate).bind fun c => (parse s.version).bind fun target => ?_
    split
    · exact (upperBound target _).bind fun _ => ok _
    · exact ok _

theorem textsEqual (left right : String) : TemplateFree (Comparison.textsEqual left right) := by
  unfold Comparison.textsEqual
  split
  · dsimp only
    split
    · exact contains _ _
    · exact ok _
  · exact ok _

theorem textsOrdered (op : Comparator) (left right : String) :
    TemplateFree (Comparison.textsOrdered op left right) := by
  unfold Comparison.textsOrdered
  split
  · split
    · exact (parse right).bind fun v => (upperBound v _).bind fun _ => contains _ _
    · exact contains _ _
  · split
    · exact ok _
    · exact ok _
    · exact ok _
    · exact ok _
    · intro template fault h
      cases h

theorem textsMeet (left : String) (op : MarkerOperator) (right : String) :
    TemplateFree (Comparison.textsMeet left op right) := by
  unfold Comparison.textsMeet
  split
  · exact ok _
  · exact ok _
  · exact ok _
  · exact textsEqual left right
  · exact (textsEqual left right).map _
  · exact textsOrdered _ left right

theorem meetsExtras (c : Comparison) (extras : List String) :
    TemplateFree (c.meetsExtras extras) := by
  unfold Comparison.meetsExtras
  dsimp only
  split
  · exact ok _
  · exact ok _
  · exact ok _
  · exact ok _
  · exact ok _
  · intro template fault h
    cases h

theorem onOrdered (c : Comparison) (op : MarkerOperator) (name : String) :
    TemplateFree (c.onOrdered op name) := by
  unfold Comparison.onOrdered
  dsimp only
  split
  · exact ok _
  · exact ok _
  · exact ok _
  · exact (parse _).bind fun v => (upperBound v _).bind fun _ => ok _
  · exact ok _
  · intro template fault h
    cases h

end TemplateFree

/-! ## Templates that are filled in -/

theorem Template.known_parameter {template parameter : String}
    (h : placeholders template = [parameter]) (value : String) :
    ∀ name ∈ placeholders template, (Table.get? [(parameter, value)] name).isSome := by
  intro name hn
  rw [h, List.mem_singleton] at hn
  simp [Table.get?, hn]

namespace Comparison

variable {c : Comparison} {scope : Scope} {text : String} {fault : TemplateFault}

theorem exists_fill_of_onEquality {op : MarkerOperator} {template parameter : String}
    (h : c.onEquality op template parameter = .error (.badTemplate text fault)) :
    ∃ value, Template.fill template [(parameter, value)] = .error (.badTemplate text fault) := by
  cases op with
  | isIn | notIn =>
    rcases bind_eq_error_iff.1 h with h | ⟨names, _, h⟩
    · obtain ⟨value, _, hv⟩ := exists_of_mapM_error h
      exact ⟨value, hv⟩
    · cases names <;> cases h
  | compare op =>
    cases op with
    | equal | identical | notEqual =>
      rcases bind_eq_error_iff.1 h with h | ⟨name, _, h⟩
      · exact ⟨_, h⟩
      · cases h
    | compatible | atMost | atLeast | less | greater => cases h

/-- Only the template of the variable that is asked for can fail. -/
theorem exists_fill_of_evaluate (h : c.evaluate scope = .error (.badTemplate text fault)) :
    c.variableName ≠ "extra" ∧ scope.environment.get? c.variableName = none ∧
      ∃ template parameter value,
        scope.capabilities.get? c.variableName = some (.equality template parameter) ∧
        Template.fill template [(parameter, value)] = .error (.badTemplate text fault) := by
  by_cases hx : c.variableName = "extra"
  · rw [evaluate_extra hx] at h
    exact absurd h ((TemplateFree.meetsExtras c scope.extras).map _ text fault)
  refine ⟨hx, ?_⟩
  cases hv : scope.environment.get? c.variableName with
  | some value =>
    rw [evaluate_bound hx hv] at h
    split at h
    · exact absurd h ((TemplateFree.textsMeet _ _ _).map _ text fault)
    · exact absurd h ((TemplateFree.textsMeet _ _ _).map _ text fault)
  | none =>
    refine ⟨rfl, ?_⟩
    cases hc : scope.capabilities.get? c.variableName with
    | none =>
      rw [evaluate_unknown hx hv hc] at h
      cases h
    | some capability =>
      rw [evaluate_capability hx hv hc, onCapability] at h
      split at h
      · cases h
      · cases capability with
        | ordered name => exact absurd h (TemplateFree.onOrdered c _ name text fault)
        | equality template parameter =>
          obtain ⟨value, hf⟩ := exists_fill_of_onEquality h
          exact ⟨template, parameter, value, rfl, hf⟩

end Comparison

/-- A marker fails with the failure of one of its comparisons. -/
theorem Marker.exists_comparison_of_error {m : Marker} {scope : Scope} {e : Failure}
    (h : m.evaluate scope = .error e) : ∃ c ∈ m.comparisons, c.evaluate scope = .error e := by
  induction m using connective_induction with
  | comparison c => exact ⟨c, List.mem_singleton_self c, h⟩
  | join op l r ihl ihr =>
    have right (hr : r.evaluate scope = .error e) :
        ∃ c ∈ (op.marker l r).comparisons, c.evaluate scope = .error e := by
      obtain ⟨c, hc, he⟩ := ihr hr
      exact ⟨c, by rw [comparisons_join]; exact List.mem_append_right _ hc, he⟩
    rcases evaluate_cases op scope l with ⟨e', hl⟩ | hl | hl | ⟨d, hl⟩
    · rw [evaluate_join_error hl] at h
      cases h
      obtain ⟨c, hc, he⟩ := ihl hl
      exact ⟨c, by rw [comparisons_join]; exact List.mem_append_left _ hc, he⟩
    · rw [evaluate_join_decided hl] at h
      cases h
    · rw [evaluate_join_neutral hl] at h
      exact right h
    · rw [evaluate_join_deferred hl] at h
      split at h
      · next e' hr =>
        cases h
        exact right hr
      · cases h
      · cases h

namespace CapabilityRule

variable {rules : Table CapabilityRule} {capabilities : Table Capability}

/-- A rule whose template has a brace without its partner passes the check and fails when it is
used. -/
theorem evaluate_of_not_matched (h : resolveAll rules = .ok capabilities) {name template : String}
    (hn : name ≠ "extra") (hr : rules.get? name = some (.equality template))
    (unmatched : ¬Template.Matched template.toList) (extras : List String) (literal : String) :
    ∃ brace, (Marker.comparison ⟨name, .compare .equal, literal, false⟩).evaluate
      (.of [] extras capabilities) = .error (.badTemplate template (.brace brace)) := by
  rcases get?_resolveAll h name with ⟨absent, _⟩ | ⟨rule, capability, found, hc, resolved⟩
  · rw [absent] at hr
    cases hr
  · rw [found] at hr
    cases hr
    obtain ⟨parameter, hp, rfl⟩ := resolve_equality resolved
    obtain ⟨brace, filled⟩ :=
      Template.fill_of_not_matched (Template.known_parameter hp literal) unmatched
    refine ⟨brace, ?_⟩
    rw [Marker.evaluate, Comparison.evaluate_capability hn rfl hc]
    simp only [Comparison.onCapability, Comparison.onEquality, filled, Bool.false_eq_true, if_false,
      bind, Except.bind]

theorem unmatched_of_evaluate (h : resolveAll rules = .ok capabilities) {c : Comparison}
    {environment : Table String} {extras : List String} {text : String} {fault : TemplateFault}
    (failed : c.evaluate (.of environment extras capabilities) =
      .error (.badTemplate text fault)) :
    c.variableName ≠ "extra" ∧ environment.get? c.variableName = none ∧
      rules.get? c.variableName = some (.equality text) ∧ ¬Template.Matched text.toList ∧
      ∃ brace, fault = .brace brace := by
  obtain ⟨hx, hv, template, parameter, value, asked, filled⟩ :=
    Comparison.exists_fill_of_evaluate failed
  refine ⟨hx, hv, ?_⟩
  rcases get?_resolveAll h c.variableName with ⟨_, absent⟩ | ⟨rule, capability, found, hk, hr⟩
  · exact absurd (absent.symm.trans asked) (by simp)
  · obtain rfl : capability = .equality template parameter := Option.some.inj (hk.symm.trans asked)
    cases rule with
    | ordered given => cases resolve_ordered hr
    | equality written =>
      obtain ⟨_, hp, same⟩ := resolve_equality hr
      cases same
      have known := Template.known_parameter hp value
      by_cases matched : Template.Matched template.toList
      · obtain ⟨result, ok⟩ := Template.exists_fill_of_matched known matched
        rw [ok] at filled
        cases filled
      · obtain ⟨brace, error⟩ := Template.fill_of_not_matched known matched
        rw [error] at filled
        cases filled
        exact ⟨found, matched, brace, rfl⟩

/-- **Checked templates fail by their braces alone.** Evaluation with checked rules fails for a
template only if the marker mentions a variable that has no known value and whose rule has a
template with a brace without its partner, and the failure names such a brace. So it never fails for
a template just if all templates that can be asked for have their braces matched, which the check
does not look at. -/
theorem templates_fail_by_braces (h : resolveAll rules = .ok capabilities) :
    (∀ (m : Marker) (environment : Table String) (extras : List String) (text : String)
        (fault : TemplateFault),
      m.evaluate (.of environment extras capabilities) = .error (.badTemplate text fault) →
        ∃ name, m.Mentions name ∧ name ≠ "extra" ∧ environment.get? name = none ∧
          rules.get? name = some (.equality text) ∧ ¬Template.Matched text.toList ∧
          ∃ brace, fault = .brace brace) ∧
    ((∀ (m : Marker) (environment : Table String) (extras : List String) (text : String)
        (fault : TemplateFault),
      m.evaluate (.of environment extras capabilities) ≠ .error (.badTemplate text fault)) ↔
        ∀ name template, name ≠ "extra" → rules.get? name = some (.equality template) →
          Template.Matched template.toList) := by
  refine ⟨?_, ?_, ?_⟩
  · intro m environment extras text fault failed
    obtain ⟨c, hc, he⟩ := Marker.exists_comparison_of_error failed
    exact ⟨c.variableName, ⟨c, hc, rfl⟩, unmatched_of_evaluate h he⟩
  · intro never name template hn hr
    by_contra unmatched
    obtain ⟨brace, failed⟩ := evaluate_of_not_matched h hn hr unmatched [] ""
    exact never _ [] [] template (.brace brace) failed
  · intro matched m environment extras text fault failed
    obtain ⟨c, _, he⟩ := Marker.exists_comparison_of_error failed
    obtain ⟨hx, _, hr, unmatched, _⟩ := unmatched_of_evaluate h he
    exact unmatched (matched c.variableName text hx hr)

/-- The rules that hold unless others are configured never fail for their template. -/
theorem templates_fail_by_braces_of_defaults :
    let capabilities : Table Capability :=
      [("platform_machine", .equality "python(\x7barch\x7d)" "arch"),
       ("platform_release", .ordered "kernel"), ("python_version", .ordered "python(abi)")]
    resolveAll defaults = .ok capabilities ∧
      ∀ (m : Marker) (environment : Table String) (extras : List String) (text : String)
        (fault : TemplateFault),
        m.evaluate (.of environment extras capabilities) ≠ .error (.badTemplate text fault) := by
  intro capabilities
  have machine : resolve "platform_machine" (.equality "python(\x7barch\x7d)") =
      .ok (.equality "python(\x7barch\x7d)" "arch") := by cbv
  have release : resolve "platform_release" (.ordered "kernel") = .ok (.ordered "kernel") := rfl
  have version : resolve "python_version" (.ordered "python(abi)") =
      .ok (.ordered "python(abi)") := rfl
  have resolved : resolveAll defaults = .ok capabilities := by
    simp only [resolveAll, defaults, List.mapM_cons, List.mapM_nil, machine, release, version]
    rfl
  refine ⟨resolved, (templates_fail_by_braces resolved).2.2 ?_⟩
  intro name template _ hr
  have entry := Table.mem_of_get? hr
  simp only [defaults, List.mem_cons, Prod.mk.injEq, equality.injEq, reduceCtorEq, and_false,
    List.not_mem_nil, or_false] at entry
  rw [entry.2, Template.matched_iff]
  have parts : Template.pieces "python(\x7barch\x7d)".toList =
      "python(".toList.map .char ++ [.name "arch", .char ')'] := by cbv
  rw [parts]
  simp

/-- A brace too many passes the check, and a marker that asks for the machine fails for it. -/
theorem checked_template_fails :
    let template := "python(\x7barch\x7d\x7d)"
    let capabilities : Table Capability := [("platform_machine", .equality template "arch")]
    resolveAll [("platform_machine", .equality template)] = .ok capabilities ∧
      (Marker.comparison ⟨"platform_machine", .compare .equal, "x86_64", false⟩).evaluate
        (.of [] [] capabilities) = .error (.badTemplate template (.brace "\x7d")) := by
  intro template capabilities
  constructor
  · cbv
  · cbv

end CapabilityRule

end DepClause
