/-!
# And/or trees

Trees of leaves under `and` and `or`: their value under an assignment, their strong Kleene value
where some leaves are unknown, and the leaves that evaluation from left to right looks at.
-/

namespace DepClause

inductive Connective where
  | and
  | or
  deriving DecidableEq, Repr

namespace Connective

def value : Connective → Bool → Bool → Bool
  | .and, a, b => a && b
  | .or, a, b => a || b

/-- The strong Kleene tables; `none` is unknown. -/
def kleene : Connective → Option Bool → Option Bool → Option Bool
  | .and, some false, _ => some false
  | .and, _, some false => some false
  | .and, some true, some true => some true
  | .and, _, _ => none
  | .or, some true, _ => some true
  | .or, _, some true => some true
  | .or, some false, some false => some false
  | .or, _, _ => none

/-- The value of a left side that makes the right side irrelevant. -/
def decider : Connective → Bool
  | .and => false
  | .or => true

def text : Connective → String
  | .and => " "
  | .or => " or "

end Connective

inductive Formula (α : Type) where
  | leaf (a : α)
  | join (op : Connective) (left right : Formula α)
  deriving DecidableEq, Repr

namespace Formula

variable {α : Type}

def leaves : Formula α → List α
  | .leaf a => [a]
  | .join _ l r => l.leaves ++ r.leaves

def value (assigned : α → Bool) : Formula α → Bool
  | .leaf a => assigned a
  | .join op l r => op.value (l.value assigned) (r.value assigned)

def kleene (known? : α → Option Bool) : Formula α → Option Bool
  | .leaf a => known? a
  | .join op l r => op.kleene (l.kleene known?) (r.kleene known?)

/-- The leaves that are looked at from left to right, where a left side that decides hides the right
one. -/
def looked (known? : α → Option Bool) : Formula α → List α
  | .leaf a => [a]
  | .join op l r =>
    l.looked known? ++
      if l.kleene known? = some op.decider then [] else r.looked known?

/-- The infix text of a tree, without parentheses. -/
def render (text : α → String) : Formula α → String
  | .leaf a => text a
  | .join op l r => l.render text ++ op.text ++ r.render text

end Formula

namespace Connective

@[simp] theorem kleene_decider_left (op : Connective) (b : Option Bool) :
    op.kleene (some op.decider) b = some op.decider := by
  cases op <;> rfl

@[simp] theorem kleene_decider_right (op : Connective) (a : Option Bool) :
    op.kleene a (some op.decider) = some op.decider := by
  cases op <;> rcases a with _ | _ | _ <;> rfl

@[simp] theorem kleene_neutral_left (op : Connective) (b : Option Bool) :
    op.kleene (some !op.decider) b = b := by
  cases op <;> rcases b with _ | _ | _ <;> rfl

@[simp] theorem kleene_neutral_right (op : Connective) (a : Option Bool) :
    op.kleene a (some !op.decider) = a := by
  cases op <;> rcases a with _ | _ | _ <;> rfl

@[simp] theorem kleene_none_none (op : Connective) : op.kleene none none = none := by
  cases op <;> rfl

@[simp] theorem value_decider_left (op : Connective) (b : Bool) :
    op.value op.decider b = op.decider := by
  cases op <;> rfl

@[simp] theorem value_decider_right (op : Connective) (a : Bool) :
    op.value a op.decider = op.decider := by
  cases op <;> cases a <;> rfl

@[simp] theorem value_neutral_left (op : Connective) (b : Bool) :
    op.value (!op.decider) b = b := by
  cases op <;> cases b <;> rfl

@[simp] theorem value_neutral_right (op : Connective) (a : Bool) :
    op.value a (!op.decider) = a := by
  cases op <;> cases a <;> rfl

/-- A determined entry comes from a side that decides, or both sides are determined. -/
theorem kleene_eq_some {op : Connective} {x y : Option Bool} {v : Bool}
    (h : op.kleene x y = some v) :
    (v = op.decider ∧ (x = some op.decider ∨ y = some op.decider)) ∨
      (x = some (!op.decider) ∧ y = some v) := by
  by_cases hx : x = some op.decider
  · rw [hx, kleene_decider_left] at h
    exact .inl ⟨(Option.some.inj h).symm, .inl hx⟩
  by_cases hy : y = some op.decider
  · rw [hy, kleene_decider_right] at h
    exact .inl ⟨(Option.some.inj h).symm, .inr hy⟩
  cases op <;> rcases x with _ | _ | _ <;> rcases y with _ | _ | _ <;>
    simp_all [kleene, decider]

theorem value_of_kleene {op : Connective} {x y : Option Bool} {a b v : Bool}
    (h : op.kleene x y = some v) (ha : ∀ u, x = some u → a = u) (hb : ∀ u, y = some u → b = u) :
    op.value a b = v := by
  rcases kleene_eq_some h with ⟨rfl, hx | hy⟩ | ⟨hx, hy⟩
  · rw [ha _ hx, value_decider_left]
  · rw [hb _ hy, value_decider_right]
  · rw [ha _ hx, hb _ hy, value_neutral_left]

end Connective

namespace Formula

variable {α : Type} {known? known' : α → Option Bool} {assigned : α → Bool}

/-- The strong Kleene value depends on the leaves that are looked at alone. -/
theorem kleene_congr {f : Formula α} (h : ∀ a ∈ f.looked known?, known' a = known? a) :
    f.kleene known' = f.kleene known? := by
  induction f with
  | leaf a => exact h a List.mem_cons_self
  | join op l r ihl ihr =>
    have hl : l.kleene known' = l.kleene known? :=
      ihl fun a ha => h a (List.mem_append_left _ ha)
    by_cases hd : l.kleene known? = some op.decider
    · rw [kleene, kleene, hl, hd, Connective.kleene_decider_left, Connective.kleene_decider_left]
    · have hr : r.kleene known' = r.kleene known? := by
        refine ihr fun a ha => h a (List.mem_append_right _ ?_)
        rwa [if_neg hd]
      rw [kleene, kleene, hl, hr]

/-- A determined value holds under every assignment that agrees on the leaves looked at. -/
theorem value_of_kleene {f : Formula α} {v : Bool} (h : f.kleene known? = some v)
    (agree : ∀ a ∈ f.looked known?, ∀ b, known? a = some b → assigned a = b) :
    f.value assigned = v := by
  induction f generalizing v with
  | leaf a => exact agree a List.mem_cons_self v h
  | join op l r ihl ihr =>
    have hl : ∀ u, l.kleene known? = some u → l.value assigned = u := fun u hu =>
      ihl hu fun a ha => agree a (List.mem_append_left _ ha)
    by_cases hd : l.kleene known? = some op.decider
    · rw [kleene, hd, Connective.kleene_decider_left] at h
      rw [value, hl _ hd, Connective.value_decider_left]
      exact Option.some.inj h
    · refine Connective.value_of_kleene h hl fun u hu => ihr hu fun a ha => ?_
      exact agree a (List.mem_append_right _ (by rwa [if_neg hd]))

end Formula

end DepClause
