import Mathlib.Data.List.Forall2

/-!
# Steps that can fail

A sequence of steps in `Except` succeeds where each step does. `List.mapM` is such a sequence, and
each of its results is that of a step.
-/

namespace DepClause

section
variable {ε α β : Type} {f : α → Except ε β}

theorem bind_eq_ok_iff {x : Except ε α} {b : β} :
    x >>= f = .ok b ↔ ∃ a, x = .ok a ∧ f a = .ok b := by
  cases x with
  | error e => simp [bind, Except.bind]
  | ok a => simp [bind, Except.bind]

theorem bind_eq_error_iff {x : Except ε α} {e : ε} :
    x >>= f = .error e ↔ x = .error e ∨ ∃ a, x = .ok a ∧ f a = .error e := by
  cases x with
  | error e' => simp [bind, Except.bind]
  | ok a => simp [bind, Except.bind]

theorem map_eq_ok_iff {g : α → β} {x : Except ε α} {b : β} :
    x.map g = .ok b ↔ ∃ a, x = .ok a ∧ g a = b := by
  cases x <;> simp [Except.map]

theorem mapError_eq_ok_iff {δ : Type} {g : ε → δ} {x : Except ε α} {a : α} :
    x.mapError g = .ok a ↔ x = .ok a := by
  cases x <;> simp [Except.mapError]

/-- A result that is compared as an option, which can be decided by evaluation. -/
theorem eq_ok_of_toOption {x : Except ε α} {a : α} (h : x.toOption = some a) : x = .ok a := by
  cases x with
  | error e => cases h
  | ok b =>
    cases h
    rfl

theorem mapM_cons_eq_ok_iff {x : α} {xs : List α} {ys : List β} :
    (x :: xs).mapM f = .ok ys ↔ ∃ z zs, f x = .ok z ∧ xs.mapM f = .ok zs ∧ ys = z :: zs := by
  simp only [List.mapM_cons, bind_eq_ok_iff, pure, Except.pure, Except.ok.injEq]
  constructor
  · rintro ⟨z, hz, zs, hzs, rfl⟩
    exact ⟨z, zs, hz, hzs, rfl⟩
  · rintro ⟨z, zs, hz, hzs, rfl⟩
    exact ⟨z, hz, zs, hzs, rfl⟩

theorem mapM_some_eq_ok_iff {x : α} {y : Option β} :
    (some x).mapM f = .ok y ↔ ∃ z, f x = .ok z ∧ y = some z := by
  rw [Option.mapM_some]
  cases f x with
  | error e => simp [Functor.map, Except.map]
  | ok z => simp [Functor.map, Except.map, eq_comm]

theorem exists_mapM_eq_ok {xs : List α} (h : ∀ x ∈ xs, ∃ y, f x = .ok y) :
    ∃ ys, xs.mapM f = .ok ys := by
  induction xs with
  | nil => exact ⟨[], rfl⟩
  | cons x xs ih =>
    obtain ⟨z, hz⟩ := h x List.mem_cons_self
    obtain ⟨zs, hzs⟩ := ih fun y hy => h y (List.mem_cons_of_mem x hy)
    exact ⟨z :: zs, mapM_cons_eq_ok_iff.2 ⟨z, zs, hz, hzs, rfl⟩⟩

/-- The results of a sequence are those of its steps, in their order. -/
theorem mapM_eq_ok_iff {xs : List α} {ys : List β} :
    xs.mapM f = .ok ys ↔ List.Forall₂ (fun x y => f x = .ok y) xs ys := by
  induction xs generalizing ys with
  | nil => simp [pure, Except.pure, eq_comm]
  | cons x xs ih =>
    rw [mapM_cons_eq_ok_iff, List.forall₂_cons_left_iff]
    constructor
    · rintro ⟨z, zs, hz, hzs, rfl⟩
      exact ⟨z, zs, hz, ih.1 hzs, rfl⟩
    · rintro ⟨z, zs, hz, hzs, rfl⟩
      exact ⟨z, zs, hz, ih.2 hzs, rfl⟩

theorem mapM_eq_ok_map {g : α → β} {xs : List α} (h : ∀ x ∈ xs, f x = .ok (g x)) :
    xs.mapM f = .ok (xs.map g) :=
  mapM_eq_ok_iff.2 (List.forall₂_map_right_iff.2 (List.forall₂_same.2 h))

theorem mapM_map_eq_ok {g : β → α} {ys : List β} (h : ∀ y ∈ ys, f (g y) = .ok y) :
    (ys.map g).mapM f = .ok ys := by
  induction ys with
  | nil => rfl
  | cons y ys ih =>
    have rest := ih fun z hz => h z (List.mem_cons_of_mem y hz)
    exact mapM_cons_eq_ok_iff.2 ⟨y, ys, h y List.mem_cons_self, rest, rfl⟩

theorem exists_of_mem_mapM {xs : List α} {ys : List β} (h : xs.mapM f = .ok ys) {y : β}
    (hy : y ∈ ys) : ∃ x ∈ xs, f x = .ok y := by
  induction xs generalizing ys with
  | nil =>
    cases h
    cases hy
  | cons x xs ih =>
    obtain ⟨z, zs, hz, hzs, rfl⟩ := mapM_cons_eq_ok_iff.1 h
    rcases List.mem_cons.1 hy with rfl | hy
    · exact ⟨x, List.mem_cons_self, hz⟩
    · obtain ⟨w, hw, hwy⟩ := ih hzs hy
      exact ⟨w, List.mem_cons_of_mem x hw, hwy⟩

theorem exists_ok_of_mapM {xs : List α} {ys : List β} (h : xs.mapM f = .ok ys) {x : α}
    (hx : x ∈ xs) : ∃ y ∈ ys, f x = .ok y := by
  induction xs generalizing ys with
  | nil => cases hx
  | cons x xs ih =>
    obtain ⟨z, zs, hz, hzs, rfl⟩ := mapM_cons_eq_ok_iff.1 h
    rcases List.mem_cons.1 hx with rfl | hx
    · exact ⟨z, List.mem_cons_self, hz⟩
    · obtain ⟨y, hy, hxy⟩ := ih hzs hx
      exact ⟨y, List.mem_cons_of_mem z hy, hxy⟩

/-- A sequence fails as the first step does that fails. -/
theorem mapM_eq_error_iff {xs : List α} {e : ε} :
    xs.mapM f = .error e ↔ ∃ front x behind, xs = front ++ x :: behind ∧
      (∀ y ∈ front, ∃ z, f y = .ok z) ∧ f x = .error e := by
  induction xs with
  | nil => simp [pure, Except.pure]
  | cons x xs ih =>
    rw [List.mapM_cons, bind_eq_error_iff]
    constructor
    · rintro (hx | ⟨z, hz, h⟩)
      · exact ⟨[], x, xs, rfl, by simp, hx⟩
      · rcases bind_eq_error_iff.1 h with hxs | ⟨zs, _, h⟩
        · obtain ⟨front, y, behind, rfl, before, hy⟩ := ih.1 hxs
          exact ⟨x :: front, y, behind, rfl, List.forall_mem_cons.2 ⟨⟨z, hz⟩, before⟩, hy⟩
        · cases h
    · rintro ⟨front, y, behind, whole, before, hy⟩
      cases front with
      | nil =>
        obtain ⟨rfl, rfl⟩ := List.cons.inj whole
        exact .inl hy
      | cons w front =>
        obtain ⟨rfl, rfl⟩ := List.cons.inj whole
        obtain ⟨⟨z, hz⟩, before⟩ := List.forall_mem_cons.1 before
        exact .inr ⟨z, hz, bind_eq_error_iff.2 (.inl (ih.2 ⟨front, y, behind, rfl, before, hy⟩))⟩

theorem exists_of_mapM_error {xs : List α} {e : ε} (h : xs.mapM f = .error e) :
    ∃ x ∈ xs, f x = .error e := by
  obtain ⟨front, x, behind, rfl, _, hx⟩ := mapM_eq_error_iff.1 h
  exact ⟨x, by simp, hx⟩

/-- Results that carry what they come from give back the list of it. -/
theorem map_eq_of_mapM {g : β → α} (hg : ∀ x y, f x = .ok y → g y = x) {xs : List α}
    {ys : List β} (h : xs.mapM f = .ok ys) : ys.map g = xs := by
  induction xs generalizing ys with
  | nil =>
    cases h
    rfl
  | cons x xs ih =>
    obtain ⟨z, zs, hz, hzs, rfl⟩ := mapM_cons_eq_ok_iff.1 h
    rw [List.map_cons, hg x z hz, ih hzs]

end

end DepClause
