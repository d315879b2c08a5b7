import Mathlib.Data.List.Lex
import Mathlib.Data.Prod.Lex
import Mathlib.Order.Compare
import Mathlib.Order.PiLex

/-!
# Comparisons

A comparison of keys has the laws of the comparison of the keys, and the two ends of an ascending
row compare as the steps between them say. A comparison of parts, one behind the other, is the
lexicographic order of what the parts stand for.
-/

namespace DepClause

/-- A comparison of keys inherits the laws of the comparison that the keys have. -/
theorem transCmp_of_keys {α β : Type} (cmp : β → β → Ordering) [Std.TransCmp cmp] (key : α → β)
    {c : α → α → Ordering} (h : ∀ a b, c a b = cmp (key a) (key b)) : Std.TransCmp c where
  eq_swap {a b} := by
    rw [h a b, h b a]
    exact Std.OrientedCmp.eq_swap
  isLE_trans {a b d} hab hbd := by
    rw [h] at hab hbd ⊢
    exact Std.TransCmp.isLE_trans hab hbd

/-- In an ascending row the first step that is no equality decides. -/
theorem compare_eq_then_of_isLE {α : Type} {cmp : α → α → Ordering} [Std.TransCmp cmp] {a b c : α}
    (hab : (cmp a b).isLE) (hbc : (cmp b c).isLE) : cmp a c = (cmp a b).then (cmp b c) := by
  cases h : cmp a b with
  | lt => exact Std.TransCmp.lt_of_lt_of_isLE h hbc
  | eq => exact Std.TransCmp.congr_left h
  | gt =>
    rw [h] at hab
    cases hab

/-! ## Lexicographic orders -/

section
variable {α β : Type} [LinearOrder α] [LinearOrder β] {o p : Ordering}

theorem compares_compare (a b : α) : (compare a b).Compares a b := (compare_iff a b).1 rfl

/-- Pairs go by their first parts and then by their second ones. -/
theorem compares_pair {a b : α} {s t : β} (ho : o.Compares a b) (hp : p.Compares s t) :
    (o.then p).Compares (toLex (a, s)) (toLex (b, t)) := by
  cases o with
  | lt => exact Prod.Lex.toLex_lt_toLex.2 (.inl ho)
  | gt => exact Prod.Lex.toLex_lt_toLex.2 (.inl ho)
  | eq =>
    obtain rfl : a = b := ho
    rw [Ordering.eq_then]
    cases p with
    | lt => exact Prod.Lex.toLex_lt_toLex.2 (.inr ⟨rfl, hp⟩)
    | gt => exact Prod.Lex.toLex_lt_toLex.2 (.inr ⟨rfl, hp⟩)
    | eq =>
      obtain rfl : s = t := hp
      rfl

theorem compares_cons {a b : α} {as bs : List α} (ho : o.Compares a b) (hp : p.Compares as bs) :
    (o.then p).Compares (a :: as) (b :: bs) := by
  cases o with
  | lt => exact List.cons_lt_cons_iff.2 (.inl ho)
  | gt => exact List.cons_lt_cons_iff.2 (.inl ho)
  | eq =>
    obtain rfl : a = b := ho
    rw [Ordering.eq_then]
    cases p with
    | lt => exact List.cons_lt_cons_iff.2 (.inr ⟨rfl, hp⟩)
    | gt => exact List.cons_lt_cons_iff.2 (.inr ⟨rfl, hp⟩)
    | eq =>
      obtain rfl : as = bs := hp
      rfl

/-- Lists go item by item, a proper prefix comes first. -/
theorem compares_map {γ : Type} {cmp : γ → γ → Ordering} {grade : γ → α}
    (h : ∀ a b, (cmp a b).Compares (grade a) (grade b)) (as bs : List γ) :
    (List.compareLex cmp as bs).Compares (as.map grade) (bs.map grade) := by
  induction as generalizing bs with
  | nil =>
    cases bs with
    | nil => rfl
    | cons b bs => exact List.nil_lt_cons _ _
  | cons a as ih =>
    cases bs with
    | nil => exact List.nil_lt_cons _ _
    | cons b bs =>
      rw [List.compareLex_cons_cons]
      exact compares_cons (h a b) (ih bs)

theorem compares_list (as bs : List α) : (List.compareLex compare as bs).Compares as bs := by
  have h := compares_map (fun a b : α => compares_compare a b) as bs
  rwa [List.map_id', List.map_id'] at h

/-- Sequences go by their first items and then by what follows. -/
theorem compares_sequence {s t : ℕ → α} (ho : o.Compares (s 0) (t 0))
    (hp : p.Compares (toLex fun i => s (i + 1)) (toLex fun i => t (i + 1))) :
    (o.then p).Compares (toLex s) (toLex t) := by
  have later {s t : ℕ → α} (first : s 0 = t 0)
      (h : toLex (fun i => s (i + 1)) < toLex fun i => t (i + 1)) : toLex s < toLex t := by
    obtain ⟨i, front, less⟩ := h
    refine ⟨i + 1, ?_, less⟩
    intro j hj
    cases j with
    | zero => exact first
    | succ j => exact front j (Nat.lt_of_succ_lt_succ hj)
  cases o with
  | lt => exact ⟨0, by simp, ho⟩
  | gt => exact ⟨0, by simp, ho⟩
  | eq =>
    rw [Ordering.eq_then]
    cases p with
    | lt => exact later ho hp
    | gt => exact later (Eq.symm ho) hp
    | eq =>
      have rest := congrFun (toLex_inj.1 hp)
      refine congrArg toLex (funext fun i => ?_)
      cases i with
      | zero => exact ho
      | succ i => exact rest i

end

end DepClause
