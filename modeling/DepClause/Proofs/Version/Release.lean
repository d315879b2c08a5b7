import DepClause.Label.Encoding
import DepClause.Version.Order

/-!
# The order of releases

Releases compare as if each went on with zeros for ever. Both cuts of trailing zeros keep that
order: the one that comparing versions makes, and the one of a label, which keeps two numbers.
-/

namespace DepClause

/-- Releases number by number, the shorter one going on with zeros. -/
def comparePadded : List Nat → List Nat → Ordering
  | [], [] => .eq
  | [], n :: ns => (compare 0 n).then (comparePadded [] ns)
  | m :: ms, [] => (compare m 0).then (comparePadded ms [])
  | m :: ms, n :: ns => (compare m n).then (comparePadded ms ns)

theorem comparePadded_heads (ms ns : List Nat) :
    comparePadded ms ns =
      (compare (ms.headD 0) (ns.headD 0)).then (comparePadded ms.tail ns.tail) := by
  cases ms <;> cases ns <;> simp [comparePadded]

theorem trimZeros_zero_cons (n : Nat) (ns : List Nat) :
    trimZeros 0 (n :: ns) = if n = 0 ∧ trimZeros 0 ns = [] then [] else n :: trimZeros 0 ns := by
  cases h : trimZeros 0 ns <;> simp [trimZeros, h]

theorem trimZeros_succ_cons (k n : Nat) (ns : List Nat) :
    trimZeros (k + 1) (n :: ns) = n :: trimZeros k ns := by
  cases h : trimZeros k ns <;> simp [trimZeros, h]

/-- A list that is left after the cut ends with no zero, so one that was cut away lies below it. -/
theorem compareLex_trimZeros_cons (m n : Nat) (ms ns : List Nat) :
    List.compareLex compare (trimZeros 0 (m :: ms)) (trimZeros 0 (n :: ns)) =
      (compare m n).then (List.compareLex compare (trimZeros 0 ms) (trimZeros 0 ns)) := by
  rw [trimZeros_zero_cons, trimZeros_zero_cons]
  split
  · next hm =>
    split
    · next hn => simp [hm, hn]
    · next hn =>
      rw [hm.1, hm.2, List.compareLex_nil_cons]
      cases n with
      | zero =>
        obtain ⟨l, ls, hl⟩ := List.exists_cons_of_ne_nil (fun h => hn ⟨rfl, h⟩)
        rw [hl, List.compareLex_nil_cons]
        rfl
      | succ n => rw [Nat.compare_eq_lt.2 n.succ_pos, Ordering.lt_then]
  · next hm =>
    split
    · next hn =>
      rw [hn.1, hn.2, List.compareLex_cons_nil]
      cases m with
      | zero =>
        obtain ⟨l, ls, hl⟩ := List.exists_cons_of_ne_nil (fun h => hm ⟨rfl, h⟩)
        rw [hl, List.compareLex_cons_nil]
        rfl
      | succ m => rw [Nat.compare_eq_gt.2 m.succ_pos, Ordering.gt_then]
    · exact List.compareLex_cons_cons

theorem compareLex_trimZeros (ms ns : List Nat) :
    List.compareLex compare (trimZeros 0 ms) (trimZeros 0 ns) = comparePadded ms ns := by
  fun_induction comparePadded ms ns with
  | case1 => rfl
  | case2 n ns ih =>
    rw [← ih, ← compareLex_trimZeros_cons 0 n [] ns]
    rfl
  | case3 m ms ih =>
    rw [← ih, ← compareLex_trimZeros_cons m 0 ms []]
    rfl
  | case4 m ms n ns ih => rw [← ih, compareLex_trimZeros_cons]

namespace Version

theorem compareRelease_eq {v w : Version} (hv : v.release ≠ []) (hw : w.release ≠ []) :
    compareRelease v w = comparePadded v.release w.release := by
  obtain ⟨m, ms, hm⟩ := List.exists_cons_of_ne_nil hv
  obtain ⟨n, ns, hn⟩ := List.exists_cons_of_ne_nil hw
  rw [compareRelease, hm, hn, trimZeros_succ_cons, trimZeros_succ_cons, List.compareLex_cons_cons,
    compareLex_trimZeros, comparePadded]

theorem labelRelease_cons (m : Nat) (ms : List Nat) :
    labelRelease (m :: ms) = m :: ms.headD 0 :: trimZeros 0 ms.tail := by
  cases ms with
  | nil => simp [labelRelease, trimZeros]
  | cons n ns => simp [labelRelease, trimZeros_succ_cons]

/-- The zeros that a label keeps or adds change nothing in the order of releases. -/
theorem compareLex_labelRelease {r s : List Nat} (hr : r ≠ []) (hs : s ≠ []) :
    List.compareLex Ord.compare (labelRelease r) (labelRelease s) = comparePadded r s := by
  obtain ⟨m, ms, rfl⟩ := List.exists_cons_of_ne_nil hr
  obtain ⟨n, ns, rfl⟩ := List.exists_cons_of_ne_nil hs
  rw [labelRelease_cons, labelRelease_cons, List.compareLex_cons_cons, List.compareLex_cons_cons,
    compareLex_trimZeros, comparePadded, comparePadded_heads ms ns]

end Version

end DepClause
