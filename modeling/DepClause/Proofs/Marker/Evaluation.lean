import DepClause.Marker.Evaluation
import DepClause.Proofs.Marker.Formula

/-!
# Partial evaluation of markers

A marker is an and/or tree of comparisons. Evaluation looks at them from left to right, stops at the
first that fails, and otherwise knows the value of the marker where strong Kleene logic does. What
it leaves as a condition is a tree of the comparisons that it could not decide, in their order and
with the value of the marker.
-/

namespace DepClause

namespace Connective

def marker : Connective → Marker → Marker → Marker
  | .and => .and
  | .or => .or

def condition : Connective → Condition → Condition → Condition
  | .and => .both
  | .or => .either

theorem render_condition (op : Connective) (c d : Condition) :
    (op.condition c d).render = c.render ++ op.text ++ d.render := by
  cases op <;> rfl

end Connective

/-- The condition of a tree of conditions. -/
def Formula.condition {α : Type} (leaf : α → Condition) : Formula α → Condition
  | .leaf a => leaf a
  | .join op l r => op.condition (l.condition leaf) (r.condition leaf)

theorem Formula.render_condition {α : Type} (leaf : α → Condition) (f : Formula α) :
    (f.condition leaf).render = f.render fun a => (leaf a).render := by
  induction f with
  | leaf a => rfl
  | join op l r ihl ihr => rw [condition, op.render_condition, ihl, ihr, render]

def Verdict.known? : Verdict → Option Bool
  | .known b => some b
  | .deferred _ => none

/-- A comparison at its place in a marker: the turns from the root, `true` to the right. -/
structure Occurrence where
  path : List Bool
  comparison : Comparison
  deriving DecidableEq, Repr

namespace Occurrence

/-- The value of a comparison, if there is one at conversion time. -/
def known? (scope : Scope) (o : Occurrence) : Option Bool :=
  match o.comparison.evaluate scope with
  | .ok v => v.known?
  | .error _ => none

def failure? (scope : Scope) (o : Occurrence) : Option Failure :=
  match o.comparison.evaluate scope with
  | .ok _ => none
  | .error e => some e

theorem known?_eq_some_iff {scope : Scope} {o : Occurrence} {b : Bool} :
    o.known? scope = some b ↔ o.comparison.evaluate scope = .ok (.known b) := by
  unfold known?
  rcases o.comparison.evaluate scope with e | b | c <;> simp [Verdict.known?]

end Occurrence

namespace Marker

def occurrencesFrom (path : List Bool) : Marker → Formula Occurrence
  | .comparison c => .leaf ⟨path, c⟩
  | .and l r =>
    .join .and (l.occurrencesFrom (path ++ [false])) (r.occurrencesFrom (path ++ [true]))
  | .or l r =>
    .join .or (l.occurrencesFrom (path ++ [false])) (r.occurrencesFrom (path ++ [true]))

/-- The tree of a marker, its leaves told apart by their places. -/
def occurrences (m : Marker) : Formula Occurrence := m.occurrencesFrom []

theorem occurrencesFrom_join (path : List Bool) (op : Connective) (l r : Marker) :
    (op.marker l r).occurrencesFrom path =
      .join op (l.occurrencesFrom (path ++ [false])) (r.occurrencesFrom (path ++ [true])) := by
  cases op <;> rfl

/-- Induction for both connectives at once. -/
@[elab_as_elim] theorem connective_induction {motive : Marker → Prop}
    (comparison : ∀ c, motive (.comparison c))
    (join : ∀ (op : Connective) (l r : Marker), motive l → motive r → motive (op.marker l r))
    (m : Marker) : motive m := by
  induction m with
  | comparison c => exact comparison c
  | and l r ihl ihr => exact join .and l r ihl ihr
  | or l r ihl ihr => exact join .or l r ihl ihr

theorem path_isPrefix {m : Marker} {path : List Bool} {o : Occurrence}
    (h : o ∈ (m.occurrencesFrom path).leaves) : path <+: o.path := by
  induction m using connective_induction generalizing path with
  | comparison c =>
    obtain rfl := List.mem_singleton.1 h
    exact List.prefix_refl path
  | join op l r ihl ihr =>
    rw [occurrencesFrom_join] at h
    rcases List.mem_append.1 h with h | h
    · exact (List.prefix_append path [false]).trans (ihl h)
    · exact (List.prefix_append path [true]).trans (ihr h)

/-- No two leaves stand at one place. -/
theorem nodup_leaves (m : Marker) (path : List Bool) :
    (m.occurrencesFrom path).leaves.Nodup := by
  induction m using connective_induction generalizing path with
  | comparison c => exact List.pairwise_singleton _ _
  | join op l r ihl ihr =>
    rw [occurrencesFrom_join, Formula.leaves, List.nodup_append]
    refine ⟨ihl _, ihr _, ?_⟩
    rintro o ho _ hr rfl
    have hle : (path ++ [false]).length ≤ (path ++ [true]).length := by simp
    have hpre : path ++ [false] <+: path ++ [true] :=
      List.prefix_of_prefix_length_le (path_isPrefix ho) (path_isPrefix hr) hle
    simp at hpre

section
variable {scope : Scope} {op : Connective} {l r : Marker}

/-! ## One step -/

theorem evaluate_join_error {e : Failure} (hl : l.evaluate scope = .error e) :
    (op.marker l r).evaluate scope = .error e := by
  cases op <;> simp [Connective.marker, evaluate, hl]

/-- A left side that decides leaves the right side alone. -/
theorem evaluate_join_decided (hl : l.evaluate scope = .ok (.known op.decider)) :
    (op.marker l r).evaluate scope = .ok (.known op.decider) := by
  cases op <;>
    simp_all [Connective.marker, evaluate, Verdict.andThen, Verdict.orElse, Connective.decider]

theorem evaluate_join_neutral (hl : l.evaluate scope = .ok (.known !op.decider)) :
    (op.marker l r).evaluate scope = r.evaluate scope := by
  cases op <;>
    simp_all [Connective.marker, evaluate, Verdict.andThen, Verdict.orElse, Connective.decider]

/-- Behind a condition the right side is always asked for. -/
theorem evaluate_join_deferred {c : Condition} (hl : l.evaluate scope = .ok (.deferred c)) :
    (op.marker l r).evaluate scope =
      match r.evaluate scope with
      | .error e => .error e
      | .ok (.known b) => .ok (if b = op.decider then .known b else .deferred c)
      | .ok (.deferred d) => .ok (.deferred (op.condition c d)) := by
  cases op with
  | and =>
    simp only [Connective.marker, evaluate, hl, Verdict.andThen]
    rcases r.evaluate scope with e | (_ | _) | d <;> rfl
  | or =>
    simp only [Connective.marker, evaluate, hl, Verdict.orElse]
    rcases r.evaluate scope with e | (_ | _) | d <;> rfl

end

/-- The four outcomes of a left side. -/
theorem evaluate_cases (op : Connective) (scope : Scope) (l : Marker) :
    (∃ e, l.evaluate scope = .error e) ∨ l.evaluate scope = .ok (.known op.decider) ∨
      l.evaluate scope = .ok (.known !op.decider) ∨ ∃ c, l.evaluate scope = .ok (.deferred c) := by
  rcases h : l.evaluate scope with e | b | c
  · exact .inl ⟨e, rfl⟩
  · by_cases hb : b = op.decider
    · exact .inr (.inl (by rw [hb]))
    · exact .inr (.inr (.inl (by rw [Bool.eq_not_of_ne hb])))
  · exact .inr (.inr (.inr ⟨c, rfl⟩))

section
variable {scope : Scope}

/-! ## Whole markers -/

/-- What is known of a marker is its strong Kleene value. -/
theorem kleene_of_evaluate {m : Marker} {v : Verdict} (h : m.evaluate scope = .ok v)
    (path : List Bool) : (m.occurrencesFrom path).kleene (·.known? scope) = v.known? := by
  induction m using connective_induction generalizing v path with
  | comparison c =>
    have hc : c.evaluate scope = .ok v := h
    simp only [occurrencesFrom, Formula.kleene, Occurrence.known?, hc]
  | join op l r ihl ihr =>
    rw [occurrencesFrom_join, Formula.kleene]
    rcases evaluate_cases op scope l with ⟨e, hl⟩ | hl | hl | ⟨c, hl⟩
    · rw [evaluate_join_error hl] at h
      cases h
    · rw [evaluate_join_decided hl] at h
      cases h
      rw [ihl hl, Verdict.known?, Connective.kleene_decider_left]
    · rw [evaluate_join_neutral hl] at h
      rw [ihl hl, ihr h, Verdict.known?, Connective.kleene_neutral_left]
    · rw [evaluate_join_deferred hl] at h
      rw [ihl hl]
      rcases evaluate_cases op scope r with ⟨e, hr⟩ | hr | hr | ⟨d, hr⟩
      · simp [hr] at h
      · simp only [hr, if_true] at h
        cases h
        rw [ihr hr, Verdict.known?, Connective.kleene_decider_right]
      · simp only [hr, Bool.not_eq_self, if_false] at h
        cases h
        rw [ihr hr, Verdict.known?, Connective.kleene_neutral_right]
      · simp only [hr] at h
        cases h
        rw [ihr hr]
        exact Connective.kleene_none_none op

/-- The first comparison that fails is the failure of the marker. -/
theorem findSome?_failure? (m : Marker) (path : List Bool) :
    ((m.occurrencesFrom path).looked (·.known? scope)).findSome? (·.failure? scope) =
      match m.evaluate scope with
      | .error e => some e
      | .ok _ => none := by
  induction m using connective_induction generalizing path with
  | comparison c =>
    simp only [occurrencesFrom, Formula.looked, List.findSome?_singleton, Occurrence.failure?]
    rw [show (comparison c).evaluate scope = c.evaluate scope from rfl]
    cases c.evaluate scope <;> rfl
  | join op l r ihl ihr =>
    rw [occurrencesFrom_join, Formula.looked, List.findSome?_append, ihl]
    rcases evaluate_cases op scope l with ⟨e, hl⟩ | hl | hl | ⟨c, hl⟩
    · rw [evaluate_join_error hl, hl]
      rfl
    · rw [evaluate_join_decided hl, hl, kleene_of_evaluate hl]
      simp [Verdict.known?]
    · rw [evaluate_join_neutral hl, hl, kleene_of_evaluate hl]
      simp [Verdict.known?, ihr]
    · rw [evaluate_join_deferred hl, hl, kleene_of_evaluate hl]
      simp only [Verdict.known?, reduceCtorEq, if_false, ihr, Option.none_or]
      rcases r.evaluate scope with e | b | d <;> rfl

/-- An assignment that gives the comparisons with a known value just that. -/
def Agrees (scope : Scope) (f : Formula Occurrence) (assigned : Occurrence → Bool) : Prop :=
  ∀ o ∈ f.looked (·.known? scope), ∀ b, o.known? scope = some b → assigned o = b

/-- The tree `r` is what is left of the tree `f` as the condition `c`: undecided comparisons of `f`
in their order, with the value of `f`. Their conditions make up `c`. -/
structure Residue (scope : Scope) (f : Formula Occurrence) (c : Condition)
    (r : Formula (Occurrence × Condition)) : Prop where
  leaves : (r.leaves.map Prod.fst).Sublist (f.looked (·.known? scope))
  deferred : ∀ x ∈ r.leaves, x.1.comparison.evaluate scope = .ok (.deferred x.2)
  value : ∀ assigned, Agrees scope f assigned → f.value assigned = r.value fun x => assigned x.1
  condition : c = r.condition Prod.snd

theorem Agrees.left {f g : Formula Occurrence} {op : Connective} {assigned : Occurrence → Bool}
    (h : Agrees scope (.join op f g) assigned) : Agrees scope f assigned :=
  fun o ho => h o (List.mem_append_left _ ho)

theorem Agrees.right {f g : Formula Occurrence} {op : Connective} {assigned : Occurrence → Bool}
    (h : Agrees scope (.join op f g) assigned)
    (hf : f.kleene (·.known? scope) ≠ some op.decider) : Agrees scope g assigned := by
  intro o ho
  refine h o (List.mem_append_right _ ?_)
  rwa [if_neg hf]

namespace Residue

variable {op : Connective} {f g : Formula Occurrence} {c d : Condition}
  {p q : Formula (Occurrence × Condition)}

theorem of_right (hf : f.kleene (·.known? scope) ≠ some op.decider)
    (hv : ∀ assigned, Agrees scope f assigned → f.value assigned = !op.decider)
    (hq : Residue scope g d q) : Residue scope (.join op f g) d q where
  leaves := by
    rw [Formula.looked, if_neg hf]
    exact hq.leaves.trans (List.sublist_append_right _ _)
  deferred := hq.deferred
  value assigned agrees := by
    rw [Formula.value, hv assigned agrees.left, Connective.value_neutral_left]
    exact hq.value assigned (agrees.right hf)
  condition := hq.condition

theorem of_left (hf : f.kleene (·.known? scope) ≠ some op.decider)
    (hv : ∀ assigned, Agrees scope g assigned → g.value assigned = !op.decider)
    (hp : Residue scope f c p) : Residue scope (.join op f g) c p where
  leaves := by
    rw [Formula.looked, if_neg hf]
    exact hp.leaves.trans (List.sublist_append_left _ _)
  deferred := hp.deferred
  value assigned agrees := by
    rw [Formula.value, hv assigned (agrees.right hf), Connective.value_neutral_right]
    exact hp.value assigned agrees.left
  condition := hp.condition

theorem join (hf : f.kleene (·.known? scope) ≠ some op.decider) (hp : Residue scope f c p)
    (hq : Residue scope g d q) :
    Residue scope (.join op f g) (op.condition c d) (.join op p q) where
  leaves := by
    rw [Formula.looked, if_neg hf, Formula.leaves, List.map_append]
    exact hp.leaves.append hq.leaves
  deferred x hx := by
    rcases List.mem_append.1 hx with hx | hx
    · exact hp.deferred x hx
    · exact hq.deferred x hx
  value assigned agrees := by
    rw [Formula.value, Formula.value, hp.value assigned agrees.left,
      hq.value assigned (agrees.right hf)]
  condition := by rw [Formula.condition, ← hp.condition, ← hq.condition]

end Residue

/-- A known value holds under every assignment that agrees. -/
theorem value_of_evaluate {m : Marker} {b : Bool} (h : m.evaluate scope = .ok (.known b))
    (path : List Bool) {assigned : Occurrence → Bool}
    (agrees : Agrees scope (m.occurrencesFrom path) assigned) :
    (m.occurrencesFrom path).value assigned = b :=
  Formula.value_of_kleene (kleene_of_evaluate h path) agrees

/-- A condition has a residue. -/
theorem exists_residue {m : Marker} {c : Condition} (h : m.evaluate scope = .ok (.deferred c))
    (path : List Bool) : ∃ r, Residue scope (m.occurrencesFrom path) c r := by
  induction m using connective_induction generalizing c path with
  | comparison k =>
    have hk : k.evaluate scope = .ok (.deferred c) := h
    exact ⟨.leaf (⟨path, k⟩, c), List.Sublist.refl _, by simpa [Formula.leaves] using hk,
      fun _ _ => rfl, rfl⟩
  | join op l r ihl ihr =>
    rw [occurrencesFrom_join]
    rcases evaluate_cases op scope l with ⟨e, hl⟩ | hl | hl | ⟨d, hl⟩
    · rw [evaluate_join_error hl] at h
      cases h
    · rw [evaluate_join_decided hl] at h
      cases h
    · rw [evaluate_join_neutral hl] at h
      obtain ⟨q, hq⟩ := ihr h (path ++ [true])
      refine ⟨q, hq.of_right ?_ fun assigned agrees => value_of_evaluate hl _ agrees⟩
      simp [kleene_of_evaluate hl, Verdict.known?]
    · have hne : (l.occurrencesFrom (path ++ [false])).kleene (·.known? scope) ≠
          some op.decider := by
        simp [kleene_of_evaluate hl, Verdict.known?]
      obtain ⟨p, hp⟩ := ihl hl (path ++ [false])
      rw [evaluate_join_deferred hl] at h
      rcases evaluate_cases op scope r with ⟨e, hr⟩ | hr | hr | ⟨d', hr⟩
      · simp [hr] at h
      · simp [hr] at h
      · simp only [hr, Bool.not_eq_self, if_false] at h
        cases h
        exact ⟨p, hp.of_left hne fun assigned agrees => value_of_evaluate hr _ agrees⟩
      · simp only [hr] at h
        cases h
        obtain ⟨q, hq⟩ := ihr hr (path ++ [true])
        exact ⟨.join op p q, hp.join hne hq⟩

end

/-- **Partial evaluation is sound and exact.** Every leaf counts for itself. Evaluation fails with
the first comparison looked at that fails, and knows a value just where strong Kleene logic does,
whatever the comparisons are that it skipped. A known value is that of the marker under every
assignment that agrees, and a condition has a residue. -/
theorem partial_evaluation (scope : Scope) (m : Marker) :
    m.occurrences.leaves.Nodup ∧
    (∀ e, m.evaluate scope = .error e ↔
      (m.occurrences.looked (·.known? scope)).findSome? (·.failure? scope) = some e) ∧
    (∀ v, m.evaluate scope = .ok v → ∀ known' : Occurrence → Option Bool,
      (∀ o ∈ m.occurrences.looked (·.known? scope), known' o = o.known? scope) →
        m.occurrences.kleene known' = v.known?) ∧
    (∀ b, m.evaluate scope = .ok (.known b) →
      ∀ assigned, Agrees scope m.occurrences assigned → m.occurrences.value assigned = b) ∧
    ∀ c, m.evaluate scope = .ok (.deferred c) → ∃ r, Residue scope m.occurrences c r ∧
      c.render = r.render fun x => x.2.render := by
  refine ⟨nodup_leaves m [], fun e => ?_, fun v h known' hk => ?_, fun b h assigned agrees => ?_,
    fun c h => ?_⟩
  · rw [occurrences, findSome?_failure?]
    cases m.evaluate scope <;> simp
  · rw [Formula.kleene_congr hk]
    exact kleene_of_evaluate h []
  · exact value_of_evaluate h [] agrees
  · obtain ⟨r, hr⟩ := exists_residue h []
    refine ⟨r, hr, ?_⟩
    rw [hr.condition, Formula.render_condition]

/-- An unknown variable that is skipped does no harm, and one comparison is left. -/
theorem partial_evaluation_of_skipped :
    let scope : Scope := ⟨[("os_name", "posix")], [], [("platform_machine", .ordered "arch")]⟩
    let nt : Marker := .comparison ⟨"os_name", .compare .equal, "nt", false⟩
    let unknown : Marker := .comparison ⟨"nothing", .isIn, "x", false⟩
    let machine : Marker := .comparison ⟨"platform_machine", .compare .less, "7", true⟩
    let m := Marker.or (.and nt unknown) machine
    m.evaluate scope = .ok (.deferred (.present "arch > 7")) ∧
      ∃ r, Residue scope m.occurrences (.present "arch > 7") r ∧
        "with arch > 7" = r.render fun x => x.2.render := by
  intro scope nt unknown machine m
  have h : m.evaluate scope = .ok (.deferred (.present "arch > 7")) := by cbv
  exact ⟨h, (partial_evaluation scope m).2.2.2.2 _ h⟩

end Marker

end DepClause
