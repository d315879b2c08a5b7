import DepClause.Proofs.Label.Canonical
import DepClause.Proofs.Version.Sorting

/-!
# Sorting and the order of the input

A list has one stable sort: two of them have the same classes of equal versions, start with the
first item of the first class, and go on alike. Another order of the same literals changes only the
order inside the classes, which labels do not show.
-/

namespace DepClause.Version

section
variable {α : Type} {key : α → Version} {items sorted other : List α}

/-- The items whose versions equal a version, in their order. -/
def equals (key : α → Version) (v : Version) (items : List α) : List α :=
  items.filter fun a => compare (key a) v == .eq

theorem mem_equals {v : Version} {a : α} :
    a ∈ equals key v items ↔ a ∈ items ∧ compare (key a) v = .eq := by
  rw [equals, List.mem_filter, beq_iff_eq]

theorem equals_cons (v : Version) (a : α) (items : List α) :
    equals key v (a :: items)
      = if compare (key a) v = .eq then a :: equals key v items else equals key v items := by
  simp only [equals, List.filter_cons, beq_iff_eq]

theorem mem_of_equals (same : ∀ v, equals key v items = equals key v other) {a : α}
    (ha : a ∈ items) : a ∈ other := by
  have itself : compare (key a) (key a) = .eq := Std.ReflCmp.compare_self
  have there : a ∈ equals key (key a) items := mem_equals.2 ⟨ha, itself⟩
  rw [same] at there
  exact (mem_equals.1 there).1

theorem equals_ascending (key : α → Version) (v : Version) (items : List α) :
    (equals key v items).Pairwise fun a b => (compare (key a) (key b)).isLE := by
  apply List.pairwise_of_forall_mem_list
  intro a ha b hb
  have first := (mem_equals.1 ha).2
  have second := Std.OrientedCmp.eq_comm.1 (mem_equals.1 hb).2
  rw [Std.TransCmp.eq_trans first second]
  rfl

/-- A list with the items of another one in the order of their versions, which keeps equal ones as
they stood. -/
structure StableSort (key : α → Version) (items sorted : List α) : Prop where
  perm : sorted.Perm items
  ascending : sorted.Pairwise fun a b => (compare (key a) (key b)).isLE
  stable : ∀ v, equals key v sorted = equals key v items

theorem stableSort_sort (key : α → Version) (items : List α) :
    StableSort key items (sort key items) where
  perm := sort_perm key items
  ascending := sort_ascending key items
  stable v := by
    -- a class is an ascending part of the list, and a merge sort leaves such a part as it is
    have kept : (equals key v items).Sublist (sort key items) :=
      List.sublist_mergeSort (fun _ _ _ => Std.TransCmp.isLE_trans)
        (fun a b => isLE_total (key a) (key b)) (equals_ascending key v items) List.filter_sublist
    have within : (equals key v items).Sublist (equals key v (sort key items)) := by
      have inside := kept.filter fun a => compare (key a) v == .eq
      simpa only [equals, List.filter_filter, Bool.and_self] using inside
    symm
    apply within.eq_of_length
    exact ((sort_perm key items).filter _).length_eq.symm

/-! ## One stable sort -/

/-- The first item of an ascending list comes before every item of a list with the same classes. -/
theorem head_isLE {a b : α} (least : ∀ c ∈ items, (compare (key a) (key c)).isLE)
    (same : ∀ v, equals key v other = equals key v (a :: items)) (hb : b ∈ other) :
    (compare (key a) (key b)).isLE := by
  rcases List.mem_cons.1 (mem_of_equals same hb) with rfl | there
  · exact Std.ReflCmp.isLE_rfl
  · exact least b there

theorem eq_of_equals (hs : sorted.Pairwise fun a b => (compare (key a) (key b)).isLE)
    (ho : other.Pairwise fun a b => (compare (key a) (key b)).isLE)
    (same : ∀ v, equals key v sorted = equals key v other) : sorted = other := by
  induction sorted generalizing other with
  | nil =>
    cases other with
    | nil => rfl
    | cons b other => cases mem_of_equals (fun v => (same v).symm) List.mem_cons_self
  | cons a sorted ih =>
    cases other with
    | nil => cases mem_of_equals same List.mem_cons_self
    | cons b other =>
      obtain ⟨least_a, rest_s⟩ := List.pairwise_cons.1 hs
      obtain ⟨least_b, rest_o⟩ := List.pairwise_cons.1 ho
      have itself : compare (key a) (key a) = .eq := Std.ReflCmp.compare_self
      have equal : compare (key b) (key a) = .eq := by
        apply Std.OrientedCmp.isLE_antisymm
        · exact head_isLE least_b same List.mem_cons_self
        · exact head_isLE least_a (fun v => (same v).symm) List.mem_cons_self
      have first : a :: equals key (key a) sorted = b :: equals key (key a) other := by
        have whole := same (key a)
        rwa [equals_cons, equals_cons, if_pos itself, if_pos equal] at whole
      obtain ⟨rfl, -⟩ := List.cons.inj first
      have rest : ∀ v, equals key v sorted = equals key v other := by
        intro v
        have whole := same v
        rw [equals_cons, equals_cons] at whole
        split at whole
        · exact (List.cons.inj whole).2
        · exact whole
      rw [ih rest_s rest_o rest]

theorem StableSort.eq (h : StableSort key items sorted) (k : StableSort key items other) :
    sorted = other := by
  apply eq_of_equals h.ascending k.ascending
  intro v
  rw [h.stable, k.stable]

/-! ## Labels of a sorted list -/

/-- Ascending lists of the same items have the same labels at the same places. -/
theorem map_label_eq_of_perm (hs : sorted.Pairwise fun a b => (compare (key a) (key b)).isLE)
    (ho : other.Pairwise fun a b => (compare (key a) (key b)).isLE) (perm : sorted.Perm other)
    (wellFormed : ∀ a ∈ other, (key a).WellFormed) :
    sorted.map (fun a => (key a).label) = other.map fun a => (key a).label := by
  -- labels stand in the order of the versions that they belong to
  let Below (l m : String) : Prop :=
    ∃ a ∈ other, ∃ b ∈ other, (key a).label = l ∧ (key b).label = m ∧
      (compare (key a) (key b)).isLE
  have antisymm : ∀ l m, Below l m → Below m l → l = m := by
    rintro l m ⟨a, ha, b, hb, rfl, rfl, ab⟩ ⟨c, hc, d, hd, cl, dl, cd⟩
    have cb := (label_eq_iff (wellFormed c hc) (wellFormed b hb)).1 cl
    have da := (label_eq_iff (wellFormed d hd) (wellFormed a ha)).1 dl
    have ba : (compare (key b) (key a)).isLE := by
      rw [← Std.TransCmp.congr_left cb, ← Std.TransCmp.congr_right da]
      exact cd
    apply (label_eq_iff (wellFormed a ha) (wellFormed b hb)).2
    exact Std.OrientedCmp.isLE_antisymm ab ba
  have below {items : List α} (h : items.Pairwise fun a b => (compare (key a) (key b)).isLE)
      (part : ∀ a ∈ items, a ∈ other) :
      (items.map fun a => (key a).label).Pairwise Below := by
    apply List.pairwise_map.2
    apply h.imp_of_mem
    intro a b ha hb ab
    exact ⟨a, part a ha, b, part b hb, rfl, rfl, ab⟩
  apply List.Perm.eq_of_pairwise (fun l m _ _ => antisymm l m)
  · exact below hs fun a ha => perm.subset ha
  · exact below ho fun a ha => ha
  · exact perm.map _

end

/-! ## Literals -/

theorem mapM_encodeLiteral {texts : List String} {value : String → Version}
    (read : ∀ t ∈ texts, parse t = .ok (value t)) :
    texts.mapM (encodeLiteral false) = .ok (texts.map fun t => (value t).label) := by
  apply mapM_eq_ok_map
  intro t ht
  exact encodeLiteral_eq (read t ht)

/-- **Sorting does not depend on the order of the input.** Literals that write versions are sorted
stably, as they are in no other list, and another order of the same literals leads to the same
labels. -/
theorem sorting_ignores_input_order {xs ys : List String} {value : String → Version}
    (read : ∀ t ∈ xs, parse t = .ok (value t)) (perm : ys.Perm xs) :
    ∃ sorted other labels, sortLiterals xs = .ok sorted ∧ sortLiterals ys = .ok other ∧
      StableSort value xs sorted ∧ (∀ list, StableSort value xs list → list = sorted) ∧
      sorted.mapM (encodeLiteral false) = .ok labels ∧
      other.mapM (encodeLiteral false) = .ok labels := by
  have stable := stableSort_sort value xs
  have stable_ys := stableSort_sort value ys
  have read_ys : ∀ t ∈ ys, parse t = .ok (value t) := fun t ht => read t (perm.subset ht)
  have read_sorted : ∀ t ∈ sort value xs, parse t = .ok (value t) :=
    fun t ht => read t (stable.perm.subset ht)
  have read_other : ∀ t ∈ sort value ys, parse t = .ok (value t) :=
    fun t ht => read_ys t (stable_ys.perm.subset ht)
  have same : (sort value xs).map (fun t => (value t).label)
      = (sort value ys).map fun t => (value t).label := by
    apply map_label_eq_of_perm stable.ascending stable_ys.ascending
    · exact stable.perm.trans (perm.symm.trans stable_ys.perm.symm)
    · exact fun t ht => parse_wellFormed (read_other t ht)
  refine ⟨sort value xs, sort value ys, _, sortLiterals_of_read read, sortLiterals_of_read read_ys,
    stable, fun list h => h.eq stable, mapM_encodeLiteral read_sorted, ?_⟩
  rw [same]
  exact mapM_encodeLiteral read_other

/-- Two spellings of one version keep their order, which is not that of the other list. -/
theorem sorting_ignores_input_order_of_spellings :
    let value (t : String) : Version := (parse t).toOption.getD { release := [] }
    let xs := ["2!0", "v1", "1.0-ALPHA", "1.0.0"]
    let ys := ["1.0.0", "1.0-ALPHA", "v1", "2!0"]
    ((∀ t ∈ xs, parse t = .ok (value t)) ∧ ys.Perm xs) ∧
      sortLiterals xs = .ok ["1.0-ALPHA", "v1", "1.0.0", "2!0"] ∧
      sortLiterals ys = .ok ["1.0-ALPHA", "1.0.0", "v1", "2!0"] ∧
      ["1.0-ALPHA", "v1", "1.0.0", "2!0"].mapM (encodeLiteral false)
        = ["1.0-ALPHA", "1.0.0", "v1", "2!0"].mapM (encodeLiteral false) := by
  intro value xs ys
  have written {t : String} {v : Version} (h : parse t = .ok v) : parse t = .ok (value t) := by
    simp only [value, h, Except.toOption, Option.getD_some]
  have read : ∀ t ∈ xs, parse t = .ok (value t) := by
    simp only [xs, List.forall_mem_cons]
    refine ⟨?_, ?_, ?_, ?_, List.forall_mem_nil _⟩
    · exact written (show parse "2!0" = .ok { epoch := 2, release := [0] } by cbv)
    · exact written (show parse "v1" = .ok { release := [1] } by cbv)
    · exact written (show parse "1.0-ALPHA" = .ok { release := [1, 0], pre := some ⟨.alpha, 0⟩ } by cbv)
    · exact written (show parse "1.0.0" = .ok { release := [1, 0, 0] } by cbv)
  have perm : ys.Perm xs := by decide
  have sorted_xs : sortLiterals xs = .ok ["1.0-ALPHA", "v1", "1.0.0", "2!0"] := by cbv
  have sorted_ys : sortLiterals ys = .ok ["1.0-ALPHA", "1.0.0", "v1", "2!0"] := by cbv
  obtain ⟨_, _, labels, hx, hy, _, _, lx, ly⟩ := sorting_ignores_input_order read perm
  cases sorted_xs.symm.trans hx
  cases sorted_ys.symm.trans hy
  exact ⟨⟨read, perm⟩, sorted_xs, sorted_ys, lx.trans ly.symm⟩

end DepClause.Version
