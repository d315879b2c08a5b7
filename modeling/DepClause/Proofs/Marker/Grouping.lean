import DepClause.Proofs.Marker.Formula

/-!
# And/or trees without parentheses

Written without parentheses, a tree is a row of leaves with connectives between them. Read with the
usual precedence, where `and` binds tighter than `or`, the row has the value of the tree if no `or`
stands below an `and`. Otherwise the row is that of another tree as well, and if the leaves differ
from each other the two trees differ in value.
-/

namespace DepClause.Formula

variable {α : Type}

/-! ## Rows -/

def first : Formula α → α
  | .leaf a => a
  | .join _ l _ => l.first

/-- The leaves behind the first, each with the connective in front of it. -/
def rest : Formula α → List (Connective × α)
  | .leaf _ => []
  | .join op l r => l.rest ++ (op, r.first) :: r.rest

/-- The value of a row behind a value so far. -/
def readRest (assigned : α → Bool) (b : Bool) : List (Connective × α) → Bool
  | [] => b
  | (.and, a) :: xs => readRest assigned (b && assigned a) xs
  | (.or, a) :: xs => b || readRest assigned (assigned a) xs

/-- The value of the row of a tree. -/
def readFlat (assigned : α → Bool) (f : Formula α) : Bool :=
  readRest assigned (assigned f.first) f.rest

theorem leaves_eq (f : Formula α) : f.leaves = f.first :: f.rest.map Prod.snd := by
  induction f with
  | leaf a => rfl
  | join op l r ihl ihr => simp [leaves, first, rest, ihl, ihr]

/-! ## Grouping -/

/-- No `or` in the tree. -/
def Conjunctive : Formula α → Prop
  | .leaf _ => True
  | .join .and l r => l.Conjunctive ∧ r.Conjunctive
  | .join .or _ _ => False

/-- No `or` below an `and`. -/
def Grouped : Formula α → Prop
  | .leaf _ => True
  | .join .and l r => l.Conjunctive ∧ r.Conjunctive
  | .join .or l r => l.Grouped ∧ r.Grouped

instance decidableConjunctive : (f : Formula α) → Decidable f.Conjunctive
  | .leaf _ => isTrue trivial
  | .join .and l r => @instDecidableAnd _ _ (decidableConjunctive l) (decidableConjunctive r)
  | .join .or _ _ => isFalse id

instance decidableGrouped : (f : Formula α) → Decidable f.Grouped
  | .leaf _ => isTrue trivial
  | .join .and l r => inferInstanceAs (Decidable (l.Conjunctive ∧ r.Conjunctive))
  | .join .or l r => @instDecidableAnd _ _ (decidableGrouped l) (decidableGrouped r)

theorem Conjunctive.grouped {f : Formula α} (h : f.Conjunctive) : f.Grouped := by
  cases f with
  | leaf a => trivial
  | join op l r =>
    cases op with
    | and => exact h
    | or => exact h.elim

section
variable {assigned : α → Bool}

theorem readRest_append_or (b : Bool) (xs ys : List (Connective × α)) (a : α) :
    readRest assigned b (xs ++ (.or, a) :: ys) =
      (readRest assigned b xs || readRest assigned (assigned a) ys) := by
  induction xs generalizing b with
  | nil => rfl
  | cons x xs ih =>
    obtain ⟨op, c⟩ := x
    cases op with
    | and => exact ih (b && assigned c)
    | or => simp [readRest, ih, Bool.or_assoc]

theorem readFlat_or (l r : Formula α) : (Formula.join .or l r).readFlat assigned =
    (l.readFlat assigned || r.readFlat assigned) :=
  readRest_append_or _ _ _ _

theorem readRest_conjunctive {f : Formula α} (h : f.Conjunctive) (b : Bool)
    (xs : List (Connective × α)) :
    readRest assigned (b && assigned f.first) (f.rest ++ xs) =
      readRest assigned (b && f.value assigned) xs := by
  induction f generalizing b xs with
  | leaf a => rfl
  | join op l r ihl ihr =>
    cases op with
    | or => exact h.elim
    | and =>
      calc
        readRest assigned (b && assigned l.first) (l.rest ++ (.and, r.first) :: r.rest ++ xs)
          = readRest assigned (b && l.value assigned) ((.and, r.first) :: (r.rest ++ xs)) := by
            rw [List.append_assoc, ihl h.1, List.cons_append]
        _ = readRest assigned (b && l.value assigned && r.value assigned) xs := ihr h.2 _ xs
        _ = readRest assigned (b && (l.value assigned && r.value assigned)) xs := by
            rw [Bool.and_assoc]

/-- **Grouped trees are read right.** -/
theorem readFlat_of_grouped {f : Formula α} (h : f.Grouped) :
    f.readFlat assigned = f.value assigned := by
  induction f with
  | leaf a => rfl
  | join op l r ihl ihr =>
    cases op with
    | and =>
      have hc : (Formula.join .and l r).Conjunctive := h
      simpa [readFlat, readRest] using @readRest_conjunctive _ assigned _ hc true []
    | or =>
      calc
        (Formula.join .or l r).readFlat assigned
          = (l.readFlat assigned || r.readFlat assigned) := readFlat_or l r
        _ = (l.value assigned || r.value assigned) := by rw [ihl h.1, ihr h.2]

end

/-! ## Regrouping -/

/-- The tree of a row behind a tree so far. -/
def regroup (f : Formula α) : List (Connective × α) → Formula α
  | [] => f
  | (.and, a) :: xs => (Formula.join .and f (.leaf a)).regroup xs
  | (.or, a) :: xs => .join .or f ((Formula.leaf a).regroup xs)

theorem regroup_grouped {f : Formula α} (h : f.Conjunctive) (xs : List (Connective × α)) :
    (f.regroup xs).Grouped := by
  induction xs generalizing f with
  | nil => exact h.grouped
  | cons x xs ih =>
    obtain ⟨op, a⟩ := x
    cases op with
    | and => exact ih (f := .join .and f (.leaf a)) ⟨h, trivial⟩
    | or => exact ⟨h.grouped, ih (f := .leaf a) trivial⟩

theorem regroup_first (f : Formula α) (xs : List (Connective × α)) :
    (f.regroup xs).first = f.first := by
  induction xs generalizing f with
  | nil => rfl
  | cons x xs ih =>
    obtain ⟨op, a⟩ := x
    cases op with
    | and => exact ih (.join .and f (.leaf a))
    | or => rfl

theorem regroup_rest (f : Formula α) (xs : List (Connective × α)) :
    (f.regroup xs).rest = f.rest ++ xs := by
  induction xs generalizing f with
  | nil => simp [regroup]
  | cons x xs ih =>
    obtain ⟨op, a⟩ := x
    cases op with
    | and => simp [regroup, ih, rest, first]
    | or => simp [regroup, rest, regroup_first, ih, first]

/-- The row of a tree is that of a grouped one. -/
theorem exists_grouped (f : Formula α) : ∃ g : Formula α, g.Grouped ∧ g.first = f.first ∧
    g.rest = f.rest :=
  ⟨(Formula.leaf f.first).regroup f.rest, regroup_grouped (f := .leaf f.first) trivial f.rest,
    regroup_first (.leaf f.first) f.rest, regroup_rest (.leaf f.first) f.rest⟩

/-! ## Lost grouping -/

section
variable {assigned other : α → Bool}

theorem value_congr {f : Formula α} (h : ∀ a ∈ f.leaves, assigned a = other a) :
    f.value assigned = f.value other := by
  induction f with
  | leaf a => exact h a List.mem_cons_self
  | join op l r ihl ihr =>
    rw [value, value, ihl fun a ha => h a (List.mem_append_left _ ha),
      ihr fun a ha => h a (List.mem_append_right _ ha)]

theorem value_of_all_false {f : Formula α} (h : ∀ a ∈ f.leaves, assigned a = false) :
    f.value assigned = false := by
  induction f with
  | leaf a => exact h a List.mem_cons_self
  | join op l r ihl ihr =>
    rw [value, ihl fun a ha => h a (List.mem_append_left _ ha),
      ihr fun a ha => h a (List.mem_append_right _ ha)]
    cases op <;> rfl

theorem readRest_congr {b : Bool} {xs : List (Connective × α)}
    (h : ∀ x ∈ xs, assigned x.2 = other x.2) :
    readRest assigned b xs = readRest other b xs := by
  induction xs generalizing b with
  | nil => rfl
  | cons x xs ih =>
    have hx := h x List.mem_cons_self
    have hxs := fun b => ih (b := b) fun y hy => h y (List.mem_cons_of_mem x hy)
    obtain ⟨op, a⟩ := x
    cases op with
    | and => rw [readRest, readRest, hx, hxs]
    | or => rw [readRest, readRest, hx, hxs]

theorem readFlat_congr {f : Formula α} (h : ∀ a ∈ f.leaves, assigned a = other a) :
    f.readFlat assigned = f.readFlat other := by
  rw [leaves_eq] at h
  rw [readFlat, readFlat, h _ List.mem_cons_self]
  exact readRest_congr fun x hx => h x.2 (List.mem_cons_of_mem _ (List.mem_map_of_mem hx))

theorem readRest_of_all_true {xs : List (Connective × α)} (h : ∀ x ∈ xs, assigned x.2 = true) :
    readRest assigned true xs = true := by
  induction xs with
  | nil => rfl
  | cons x xs ih =>
    have hx := h x List.mem_cons_self
    obtain ⟨op, a⟩ := x
    cases op with
    | and => simpa [readRest, hx] using ih fun y hy => h y (List.mem_cons_of_mem _ hy)
    | or => simp [readRest]

theorem readRest_of_all_false {xs : List (Connective × α)} (h : ∀ x ∈ xs, assigned x.2 = false) :
    readRest assigned false xs = false := by
  induction xs with
  | nil => rfl
  | cons x xs ih =>
    have hx := h x List.mem_cons_self
    have hxs := ih fun y hy => h y (List.mem_cons_of_mem _ hy)
    obtain ⟨op, a⟩ := x
    cases op with
    | and => simpa [readRest] using hxs
    | or => simpa [readRest, hx] using hxs

theorem readFlat_of_all_false {f : Formula α} (h : ∀ a ∈ f.leaves, assigned a = false) :
    f.readFlat assigned = false := by
  rw [leaves_eq] at h
  rw [readFlat, h _ List.mem_cons_self]
  exact readRest_of_all_false fun x hx => h x.2 (List.mem_cons_of_mem _ (List.mem_map_of_mem hx))

/-- A group of true leaves makes a row true: one that ends with an `or`, -/
theorem readRest_of_front {xs ys : List (Connective × α)} (h : ∀ x ∈ xs, assigned x.2 = true)
    (hor : ∃ a, (Connective.or, a) ∈ xs) : readRest assigned true (xs ++ ys) = true := by
  induction xs with
  | nil => simp at hor
  | cons x xs ih =>
    have hx := h x List.mem_cons_self
    obtain ⟨op, a⟩ := x
    cases op with
    | or => simp [readRest]
    | and =>
      obtain ⟨c, hc⟩ := hor
      have hc : (Connective.or, c) ∈ xs := by simpa using hc
      simpa [readRest, hx] using ih (fun y hy => h y (List.mem_cons_of_mem _ hy)) ⟨c, hc⟩

/-- or one that begins with it. -/
theorem readRest_of_back {b : Bool} {xs ys : List (Connective × α)}
    (h : ∀ y ∈ ys, assigned y.2 = true) (hor : ∃ a, (Connective.or, a) ∈ ys) :
    readRest assigned b (xs ++ ys) = true := by
  obtain ⟨a, ha⟩ := hor
  obtain ⟨front, back, rfl⟩ := List.append_of_mem ha
  rw [← List.append_assoc, readRest_append_or, h _ ha, readRest_of_all_true, Bool.or_true]
  exact fun y hy => h y (List.mem_append_right _ (List.mem_cons_of_mem _ hy))

theorem exists_or_of_not_conjunctive {f : Formula α} (h : ¬f.Conjunctive) :
    ∃ a, (Connective.or, a) ∈ f.rest := by
  induction f with
  | leaf a => exact absurd trivial h
  | join op l r ihl ihr =>
    cases op with
    | or => exact ⟨r.first, by simp [rest]⟩
    | and =>
      by_cases hl : l.Conjunctive
      · obtain ⟨a, ha⟩ := ihr fun hr => h ⟨hl, hr⟩
        exact ⟨a, by simp [rest, ha]⟩
      · obtain ⟨a, ha⟩ := ihl hl
        exact ⟨a, by simp [rest, ha]⟩

end

section
variable [DecidableEq α] {l r : Formula α}

/-- Where one side of an `or` is read wrong, so is the whole: the other side can be false. -/
theorem exists_or_ne (hd : ∀ a ∈ l.leaves, a ∉ r.leaves)
    (h : (∃ assigned, l.readFlat assigned ≠ l.value assigned) ∨
      ∃ assigned, r.readFlat assigned ≠ r.value assigned) :
    ∃ assigned, (Formula.join .or l r).readFlat assigned ≠
      (Formula.join .or l r).value assigned := by
  rcases h with ⟨assigned, h⟩ | ⟨assigned, h⟩
  · let left : α → Bool := fun a => decide (a ∈ l.leaves) && assigned a
    have hl : ∀ a ∈ l.leaves, left a = assigned a := fun a ha => by simp [left, ha]
    have hr : ∀ a ∈ r.leaves, left a = false := fun a ha => by
      have hal : a ∉ l.leaves := fun hl => hd a hl ha
      simp [left, hal]
    refine ⟨left, ?_⟩
    rw [readFlat_or, value, readFlat_of_all_false hr, value_of_all_false hr, readFlat_congr hl,
      value_congr hl]
    simpa [Connective.value] using h
  · let right : α → Bool := fun a => decide (a ∈ r.leaves) && assigned a
    have hl : ∀ a ∈ l.leaves, right a = false := fun a ha => by simp [right, hd a ha]
    have hr : ∀ a ∈ r.leaves, right a = assigned a := fun a ha => by simp [right, ha]
    refine ⟨right, ?_⟩
    rw [readFlat_or, value, readFlat_of_all_false hl, value_of_all_false hl, readFlat_congr hr,
      value_congr hr]
    simpa [Connective.value] using h

/-- Below an `and`, the leaves of the side with the `or` alone make the row true. -/
theorem exists_and_ne (hd : ∀ a ∈ l.leaves, a ∉ r.leaves)
    (h : ¬(l.Conjunctive ∧ r.Conjunctive)) :
    ∃ assigned, (Formula.join .and l r).readFlat assigned ≠
      (Formula.join .and l r).value assigned := by
  by_cases hl : l.Conjunctive
  · let right : α → Bool := fun a => decide (a ∈ r.leaves)
    have hfalse : ∀ a ∈ l.leaves, right a = false := fun a ha => by simp [right, hd a ha]
    have htrue : ∀ x ∈ r.rest, right x.2 = true := fun x hx => by
      simp [right, leaves_eq r, List.mem_map_of_mem hx]
    refine ⟨right, ?_⟩
    rw [value, value_of_all_false hfalse, readFlat, rest, List.append_cons,
      readRest_of_back htrue (exists_or_of_not_conjunctive fun hr => h ⟨hl, hr⟩)]
    simp [Connective.value]
  · let left : α → Bool := fun a => decide (a ∈ l.leaves)
    have hfalse : ∀ a ∈ r.leaves, left a = false := fun a ha => by
      have hal : a ∉ l.leaves := fun hl => hd a hl ha
      simp [left, hal]
    have htrue : ∀ x ∈ l.rest, left x.2 = true := fun x hx => by
      simp [left, leaves_eq l, List.mem_map_of_mem hx]
    have hfirst : left l.first = true := by simp [left, leaves_eq l]
    refine ⟨left, ?_⟩
    rw [value, value_of_all_false hfalse, readFlat, rest, first, hfirst,
      readRest_of_front htrue (exists_or_of_not_conjunctive hl)]
    simp [Connective.value]

end

/-- **Lost grouping.** A tree with an `or` below an `and` and different leaves is not read right. -/
theorem exists_readFlat_ne [DecidableEq α] {f : Formula α} (hd : f.leaves.Nodup)
    (h : ¬f.Grouped) : ∃ assigned, f.readFlat assigned ≠ f.value assigned := by
  induction f with
  | leaf a => exact absurd trivial h
  | join op l r ihl ihr =>
    obtain ⟨hdl, hdr, hne⟩ := List.nodup_append.1 hd
    have apart : ∀ a ∈ l.leaves, a ∉ r.leaves := fun a hl hr => hne a hl a hr rfl
    cases op with
    | and => exact exists_and_ne apart h
    | or =>
      refine exists_or_ne apart ?_
      by_cases hl : l.Grouped
      · exact .inr (ihr hdr fun hr => h ⟨hl, hr⟩)
      · exact .inl (ihl hdl hl)

end DepClause.Formula
