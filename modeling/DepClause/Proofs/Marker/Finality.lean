import Mathlib
import DepClause.Converter
import DepClause.Proofs.Marker.Evaluation
import DepClause.Proofs.Traversal

/-!
# Decisions are final

A marker that is decided at conversion time stays decided when more variables get values, those of
the target machine among them. A comparison on a capability is decided only if it asks for a word of
an empty list, and then every value of its variable gives the same answer. So a requirement that
was dropped is dropped on every machine, and one that was kept without a condition is kept.
-/

namespace DepClause

/-- A table with all entries of another one. -/
def Table.Extends {α : Type} (wide narrow : Table α) : Prop :=
  ∀ name value, narrow.get? name = some value → wide.get? name = some value

/-- A scope in which the variables of another one keep their values and more may have one. -/
structure Scope.Extends (wide narrow : Scope) : Prop where
  environment : wide.environment.Extends narrow.environment
  extras : wide.extras = narrow.extras
  capabilities : wide.capabilities = narrow.capabilities

theorem Table.Extends.scope {more known : Table String} (h : more.Extends known)
    (extras : List String) (capabilities : Table Capability) :
    (Scope.of more extras capabilities).Extends (Scope.of known extras capabilities) :=
  ⟨h, rfl, rfl⟩

namespace Comparison

variable {scope : Scope} {c : Comparison} {b : Bool}

theorem evaluate_extra (h : c.variableName = "extra") :
    c.evaluate scope = (c.meetsExtras scope.extras).map .known := by
  simp only [evaluate, h, if_true, bind, Except.bind]
  cases c.meetsExtras scope.extras <;> rfl

theorem evaluate_bound (h : c.variableName ≠ "extra") {value : String}
    (hv : scope.environment.get? c.variableName = some value) :
    c.evaluate scope =
      (if c.reversed then textsMeet c.literal c.operator value
        else textsMeet value c.operator c.literal).map .known := by
  simp only [evaluate, h, if_false, hv, bind, Except.bind]
  split
  · cases textsMeet c.literal c.operator value <;> rfl
  · cases textsMeet value c.operator c.literal <;> rfl

theorem evaluate_capability (h : c.variableName ≠ "extra")
    (hv : scope.environment.get? c.variableName = none) {capability : Capability}
    (hc : scope.capabilities.get? c.variableName = some capability) :
    c.evaluate scope = c.onCapability capability := by
  simp only [evaluate, h, if_false, hv, hc]

theorem evaluate_unknown (h : c.variableName ≠ "extra")
    (hv : scope.environment.get? c.variableName = none)
    (hc : scope.capabilities.get? c.variableName = none) :
    c.evaluate scope = .error (.unknownVariable c.variableName) := by
  simp only [evaluate, h, if_false, hv, hc]

/-! ## One comparison -/

/-- A comparison that asks for a word of an empty list: the only kind that a capability decides. -/
inductive Wordless (c : Comparison) : Bool → Prop where
  | isIn (op : c.operator = .isIn) (empty : Text.listItems c.literal = []) : Wordless c false
  | notIn (op : c.operator = .notIn) (empty : Text.listItems c.literal = []) : Wordless c true

theorem textsMeet_of_wordless (h : c.Wordless b) (value : String) :
    textsMeet value c.operator c.literal = .ok b := by
  cases h with
  | isIn op empty => simp [textsMeet, op, empty]
  | notIn op empty => simp [textsMeet, op, empty]

theorem eq_nil_of_mapM {α β : Type} {f : α → Except Failure β} {xs : List α}
    (h : xs.mapM f = .ok []) : xs = [] := by
  cases xs with
  | nil => rfl
  | cons x xs =>
    obtain ⟨_, _, _, _, he⟩ := mapM_cons_eq_ok_iff.1 h
    cases he

/-- A capability with the value in its name decides nothing but an empty list. -/
theorem wordless_of_onEquality {op : MarkerOperator} {template parameter : String}
    (h : c.onEquality op template parameter = .ok (.known b)) :
    (op = .isIn ∧ b = false ∨ op = .notIn ∧ b = true) ∧ Text.listItems c.literal = [] := by
  cases op with
  | isIn =>
    obtain ⟨names, hn, h⟩ := bind_eq_ok_iff.1 h
    cases names with
    | nil =>
      cases h
      exact ⟨.inl ⟨rfl, rfl⟩, eq_nil_of_mapM hn⟩
    | cons first others => cases h
  | notIn =>
    obtain ⟨names, hn, h⟩ := bind_eq_ok_iff.1 h
    cases names with
    | nil =>
      cases h
      exact ⟨.inr ⟨rfl, rfl⟩, eq_nil_of_mapM hn⟩
    | cons first others => cases h
  | compare op =>
    cases op with
    | equal | identical | notEqual =>
      obtain ⟨name, _, h⟩ := bind_eq_ok_iff.1 h
      cases h
    | compatible | atMost | atLeast | less | greater => cases h

/-- A capability whose version is compared decides nothing. -/
theorem onOrdered_ne_known {op : MarkerOperator} {name : String} :
    c.onOrdered op name ≠ .ok (.known b) := by
  intro h
  cases op with
  | isIn | notIn => cases h
  | compare op =>
    cases op with
    | compatible =>
      obtain ⟨v, _, h⟩ := bind_eq_ok_iff.1 h
      obtain ⟨release, _, h⟩ := bind_eq_ok_iff.1 h
      cases h
    | equal | identical | notEqual | atMost | atLeast | less | greater => cases h

theorem wordless_of_onCapability {capability : Capability}
    (h : c.onCapability capability = .ok (.known b)) : c.reversed = false ∧ c.Wordless b := by
  have compared : ∀ op, c.operator.swapped? = some op → ∃ k, op = .compare k := by
    intro op hop
    cases hc : c.operator with
    | compare k =>
      rw [hc] at hop
      obtain ⟨l, _, rfl⟩ := Option.map_eq_some_iff.1 hop
      exact ⟨l, rfl⟩
    | isIn | notIn =>
      rw [hc] at hop
      cases hop
  unfold onCapability at h
  split at h
  · cases h
  · next op hop =>
    cases capability with
    | ordered name => exact absurd h onOrdered_ne_known
    | equality template parameter =>
      obtain ⟨hopb, empty⟩ := wordless_of_onEquality h
      have hr : c.reversed = false := by
        cases hr : c.reversed with
        | false => rfl
        | true =>
          rw [hr, if_pos rfl] at hop
          obtain ⟨k, rfl⟩ := compared op hop
          rcases hopb with ⟨hk, _⟩ | ⟨hk, _⟩ <;> cases hk
      rw [hr] at hop
      obtain rfl : c.operator = op := Option.some.inj hop
      rcases hopb with ⟨hop, rfl⟩ | ⟨hop, rfl⟩
      · exact ⟨hr, .isIn hop empty⟩
      · exact ⟨hr, .notIn hop empty⟩

/-- A decided comparison stays decided, and does not fail. -/
theorem evaluate_known_of_extends {narrow wide : Scope} (hw : wide.Extends narrow)
    (h : c.evaluate narrow = .ok (.known b)) : c.evaluate wide = .ok (.known b) := by
  by_cases hx : c.variableName = "extra"
  · rw [evaluate_extra hx] at h ⊢
    rw [hw.extras]
    exact h
  · cases hn : narrow.environment.get? c.variableName with
    | some value =>
      rw [evaluate_bound hx hn] at h
      rw [evaluate_bound hx (hw.environment _ _ hn)]
      exact h
    | none =>
      cases hc : narrow.capabilities.get? c.variableName with
      | some capability =>
        rw [evaluate_capability hx hn hc] at h
        obtain ⟨hr, hl⟩ := wordless_of_onCapability h
        cases hv : wide.environment.get? c.variableName with
        | some value =>
          rw [evaluate_bound hx hv, hr, if_neg Bool.false_ne_true, textsMeet_of_wordless hl]
          rfl
        | none =>
          rw [← hw.capabilities] at hc
          rw [evaluate_capability hx hv hc]
          exact h
      | none =>
        rw [evaluate_unknown hx hn hc] at h
        cases h

end Comparison

/-! ## Whole markers -/

namespace Marker

/-- A side that decides may be reached on another way than before, or not at all: in both cases the
connective ends with the same value. -/
theorem evaluate_known_of_extends {narrow wide : Scope} (hw : wide.Extends narrow) {m : Marker}
    {b : Bool} {v : Verdict} (h : m.evaluate narrow = .ok (.known b))
    (hv : m.evaluate wide = .ok v) : v = .known b := by
  induction m using connective_induction generalizing b v with
  | comparison c =>
    have hc : c.evaluate wide = .ok (.known b) := Comparison.evaluate_known_of_extends hw h
    have hv : c.evaluate wide = .ok v := hv
    rw [hc] at hv
    exact (Except.ok.inj hv).symm
  | join op l r ihl ihr =>
    obtain ⟨u, hu⟩ : ∃ u, l.evaluate wide = .ok u := by
      cases hl : l.evaluate wide with
      | error e =>
        rw [evaluate_join_error hl] at hv
        cases hv
      | ok u => exact ⟨u, rfl⟩
    rcases evaluate_cases op narrow l with ⟨e, hl⟩ | hl | hl | ⟨c, hl⟩
    · rw [evaluate_join_error hl] at h
      cases h
    · rw [evaluate_join_decided hl] at h
      cases h
      rw [ihl hl hu] at hu
      rw [evaluate_join_decided hu] at hv
      exact (Except.ok.inj hv).symm
    · rw [evaluate_join_neutral hl] at h
      rw [ihl hl hu] at hu
      rw [evaluate_join_neutral hu] at hv
      exact ihr h hv
    · -- the right side decided alone; the left one may have got any value since
      have hr : r.evaluate narrow = .ok (.known op.decider) ∧ b = op.decider := by
        rw [evaluate_join_deferred hl] at h
        rcases evaluate_cases op narrow r with ⟨e, hr⟩ | hr | hr | ⟨d, hr⟩
        · simp [hr] at h
        · simp only [hr, if_true] at h
          cases h
          exact ⟨hr, rfl⟩
        · simp [hr] at h
        · simp [hr] at h
      obtain ⟨hr, rfl⟩ := hr
      rcases evaluate_cases op wide l with ⟨e, hl⟩ | hl | hl | ⟨c, hl⟩
      · rw [hl] at hu
        cases hu
      · rw [evaluate_join_decided hl] at hv
        exact (Except.ok.inj hv).symm
      · rw [evaluate_join_neutral hl] at hv
        exact ihr hr hv
      · rw [evaluate_join_deferred hl] at hv
        cases hwr : r.evaluate wide with
        | error e => simp [hwr] at hv
        | ok w =>
          obtain rfl := ihr hr hwr
          simp only [hwr, if_true] at hv
          exact (Except.ok.inj hv).symm

end Marker

/-! ## Requirements -/

namespace Converter

/-- A converter with another environment. -/
def within (c : Converter) (environment : Table String) : Converter :=
  { c with environment }

/-- Environment, capabilities and active extras count for a requirement only through the value of its
marker. -/
theorem convertOne_congr {c d : Converter} {text : String} {extras others : List String}
    (template : d.packageTemplate = c.packageTemplate) (style : d.style = c.style)
    (h : ∀ r, Requirement.parse text = .ok r → d.verdict r others = c.verdict r extras) :
    d.convertOne text others = c.convertOne text extras := by
  have capability : ∀ r, d.capability r = c.capability r := fun r => by
    rw [Converter.capability, capabilityName, template, style]
    rfl
  unfold convertOne
  cases hr : Requirement.parse text with
  | error e => rfl
  | ok r =>
    simp only [bind, Logged.andThen, Logged.of, h r hr, capability]

/-- A requirement that is converted has a value, which is false if it is dropped. -/
theorem verdict_of_convertOne {c : Converter} {text : String} {extras : List String}
    {clause : Option String} (h : (c.convertOne text extras).result = .ok clause) :
    ∃ r v, Requirement.parse text = .ok r ∧ c.verdict r extras = .ok v ∧
      (clause = none → v = .known false) := by
  obtain ⟨r, hr, h⟩ := Logged.result_bind_eq_ok_iff.1 h
  obtain ⟨v, hv, h⟩ := Logged.result_bind_eq_ok_iff.1 h
  refine ⟨r, v, hr, hv, ?_⟩
  rintro rfl
  cases v with
  | deferred condition =>
    obtain ⟨capability, _, h⟩ := Logged.result_bind_eq_ok_iff.1 h
    cases h
  | known b =>
    cases b with
    | false => rfl
    | true =>
      obtain ⟨capability, _, h⟩ := Logged.result_bind_eq_ok_iff.1 h
      cases h

theorem verdict_known_of_extends {c : Converter} {environment : Table String}
    (he : environment.Extends c.environment) {r : Requirement} {extras : List String} {b : Bool}
    {v : Verdict} (h : c.verdict r extras = .ok (.known b))
    (hv : (c.within environment).verdict r extras = .ok v) : v = .known b := by
  unfold verdict at h hv
  cases hm : r.marker with
  | none =>
    rw [hm] at h hv
    rw [Except.ok.inj hv] at h
    exact Except.ok.inj h
  | some m =>
    rw [hm] at h hv
    exact Marker.evaluate_known_of_extends (he.scope extras c.capabilities) h hv

/-- A requirement that is decided is converted in the same way wherever it is converted at all. -/
theorem convertOne_within_of_known {c : Converter} {environment : Table String}
    (he : environment.Extends c.environment) {text : String} {extras : List String}
    {r : Requirement} {b : Bool} {clause : Option String} (hr : Requirement.parse text = .ok r)
    (h : c.verdict r extras = .ok (.known b))
    (hc : ((c.within environment).convertOne text extras).result = .ok clause) :
    (c.within environment).convertOne text extras = c.convertOne text extras := by
  obtain ⟨s, v, hs, hv, _⟩ := verdict_of_convertOne hc
  obtain rfl : r = s := Except.ok.inj (hr.symm.trans hs)
  refine convertOne_congr (d := c.within environment) rfl rfl ?_
  intro s hs
  obtain rfl : r = s := Except.ok.inj (hr.symm.trans hs)
  rw [h, hv, verdict_known_of_extends he h hv]

end Converter

/-- **Decisions are final.** Let an environment be extended by any variables with any values. A
marker that had a known value has the same one wherever it has one. A requirement whose marker was
decided gets the same clause, and one that was dropped is dropped. -/
theorem Marker.decisions_are_final {known more : Table String} (he : more.Extends known)
    (extras : List String) (capabilities : Table Capability) :
    (∀ (m : Marker) (b : Bool) (v : Verdict),
      m.evaluate (.of known extras capabilities) = .ok (.known b) →
        m.evaluate (.of more extras capabilities) = .ok v → v = .known b) ∧
    ∀ (template : String) (style : ClauseStyle) (text : String) (clause : Option String),
      let before : Converter := ⟨known, capabilities, template, style⟩
      let after : Converter := ⟨more, capabilities, template, style⟩
      (after.convertOne text extras).result = .ok clause →
        (∀ r b, Requirement.parse text = .ok r → before.verdict r extras = .ok (.known b) →
          after.convertOne text extras = before.convertOne text extras) ∧
        ((before.convertOne text extras).result = .ok none → clause = none) := by
  constructor
  · intro m b v h hv
    exact evaluate_known_of_extends (he.scope extras capabilities) h hv
  · intro template style text clause before after hc
    have same : ∀ r b, Requirement.parse text = .ok r → before.verdict r extras = .ok (.known b) →
        after.convertOne text extras = before.convertOne text extras := by
      intro r b hr h
      exact Converter.convertOne_within_of_known (c := before) he hr h hc
    refine ⟨same, ?_⟩
    intro dropped
    obtain ⟨r, v, hr, hv, hfalse⟩ := Converter.verdict_of_convertOne dropped
    rw [hfalse rfl] at hv
    rw [same r false hr hv, dropped] at hc
    exact (Except.ok.inj hc).symm

/-- A machine that is no `arm` after all: its architecture is now asked for, and the answer is what
the empty list and the other operating system had already settled. -/
theorem Marker.decisions_are_final_of_machine :
    let known : Table String := [("os_name", "posix")]
    let more : Table String := [("platform_machine", "x86_64"), ("os_name", "posix")]
    let capabilities : Table Capability :=
      [("platform_machine", .equality "python(\x7barch\x7d)" "arch")]
    let arm : Marker := .comparison ⟨"platform_machine", .compare .equal, "arm", false⟩
    let none : Marker := .comparison ⟨"platform_machine", .notIn, " , ", false⟩
    let nt : Marker := .comparison ⟨"os_name", .compare .equal, "nt", false⟩
    let m := Marker.and (.or arm nt) (.and none nt)
    more.Extends known ∧ m.evaluate (.of known [] capabilities) = .ok (.known false) ∧
      ∀ v, m.evaluate (.of more [] capabilities) = .ok v → v = .known false := by
  intro known more capabilities arm none nt m
  have he : more.Extends known := by
    intro name value h
    by_cases hn : name = "os_name"
    · subst hn
      exact h
    · simp [known, Table.get?, Ne.symm hn] at h
  have h : m.evaluate (.of known [] capabilities) = .ok (.known false) := by cbv
  exact ⟨he, h, fun v hv => (Marker.decisions_are_final he [] capabilities).1 m false v h hv⟩

end DepClause
