import DepClause.Proofs.Traversal
import DepClause.Proofs.Version.Keys

/-!
# Sorting versions

The literals that a sort leaves are those that it was given, in the order of their versions.
-/

namespace DepClause.Version

theorem sort_perm {α : Type} (key : α → Version) (items : List α) : (sort key items).Perm items :=
  List.mergeSort_perm items _

theorem isLE_total (v w : Version) : ((compare v w).isLE || (compare w v).isLE) = true := by
  have swap : compare w v = (compare v w).swap := Std.OrientedCmp.eq_swap
  rw [swap]
  cases compare v w <;> rfl

theorem sort_ascending {α : Type} (key : α → Version) (items : List α) :
    (sort key items).Pairwise fun a b => (compare (key a) (key b)).isLE := by
  refine List.pairwise_mergeSort ?_ ?_ items
  · intro a b c hab hbc
    exact Std.TransCmp.isLE_trans hab hbc
  · intro a b
    exact isLE_total (key a) (key b)

/-- A literal with the version that it writes. -/
theorem readPair_eq_ok_iff {text : String} {p : String × Version} :
    (do return (text, ← parse text) : Except Failure (String × Version)) = .ok p ↔
      p.1 = text ∧ parse p.1 = .ok p.2 := by
  simp only [bind_eq_ok_iff, pure, Except.pure, Except.ok.injEq]
  constructor
  · rintro ⟨v, read, rfl⟩
    exact ⟨rfl, read⟩
  · rintro ⟨rfl, read⟩
    exact ⟨p.2, read, rfl⟩

theorem readAll_eq_ok {texts : List String} {pairs : List (String × Version)}
    (h : readAll texts = .ok pairs) :
    pairs.map Prod.fst = texts ∧ ∀ p ∈ pairs, parse p.1 = .ok p.2 := by
  have read {texts : List String} {pairs : List (String × Version)}
      (h : texts.mapM (fun text => do return (text, ← parse text) :
        String → Except Failure (String × Version)) = .ok pairs) :
      pairs.map Prod.fst = texts ∧ ∀ p ∈ pairs, parse p.1 = .ok p.2 := by
    refine ⟨map_eq_of_mapM (fun _ _ hp => (readPair_eq_ok_iff.1 hp).1) h, ?_⟩
    intro p hp
    obtain ⟨text, _, hp⟩ := exists_of_mem_mapM h hp
    exact (readPair_eq_ok_iff.1 hp).2
  unfold readAll at h
  split at h
  · next first second rest =>
    simp only [bind_eq_ok_iff, pure, Except.pure, Except.ok.injEq] at h
    obtain ⟨w, hw, v, hv, others, hothers, rfl⟩ := h
    obtain ⟨same, versions⟩ := read hothers
    refine ⟨by rw [List.map_cons, List.map_cons, same], ?_⟩
    intro p hp
    rcases List.mem_cons.1 hp with rfl | hp
    · exact hv
    · rcases List.mem_cons.1 hp with rfl | hp
      · exact hw
      · exact versions p hp
  · exact read h

theorem sortLiterals_eq_ok {texts sorted : List String} (h : sortLiterals texts = .ok sorted) :
    sorted.Perm texts ∧ sorted.Pairwise fun s t =>
      ∀ v w, parse s = .ok v → parse t = .ok w → (compare v w).isLE := by
  unfold sortLiterals at h
  split at h
  · cases h
    exact ⟨.refl _, .nil⟩
  · cases h
    exact ⟨.refl _, List.pairwise_singleton _ _⟩
  · cases hp : readAll texts with
    | error e =>
      rw [hp] at h
      cases h
    | ok pairs =>
      rw [hp] at h
      obtain rfl := Except.ok.inj h
      obtain ⟨same, versions⟩ := readAll_eq_ok hp
      have perm := sort_perm Prod.snd pairs
      refine ⟨same ▸ perm.map Prod.fst, List.pairwise_map.2 ?_⟩
      refine (sort_ascending Prod.snd pairs).imp_of_mem ?_
      intro p q hp hq le v w hv hw
      rw [versions p (perm.subset hp)] at hv
      rw [versions q (perm.subset hq)] at hw
      cases hv
      cases hw
      exact le

/-! ## Sorting does not fail -/

/-- A literal with the version that it writes. -/
def reading (value : String → Version) (text : String) : String × Version := (text, value text)

theorem mapM_reading {texts : List String} {value : String → Version}
    (read : ∀ t ∈ texts, parse t = .ok (value t)) :
    texts.mapM (fun t => do return (t, ← parse t) : String → Except Failure (String × Version))
      = .ok (texts.map (reading value)) := by
  apply mapM_eq_ok_map
  intro t ht
  rw [read t ht]
  rfl

theorem readAll_of_read {texts : List String} {value : String → Version}
    (read : ∀ t ∈ texts, parse t = .ok (value t)) :
    readAll texts = .ok (texts.map (reading value)) := by
  unfold readAll
  split
  · next first second rest =>
    obtain ⟨read_first, read⟩ := List.forall_mem_cons.1 read
    obtain ⟨read_second, read⟩ := List.forall_mem_cons.1 read
    rw [read_second, read_first, mapM_reading read]
    rfl
  · exact mapM_reading read

theorem sort_map {α β : Type} (key : β → Version) (f : α → β) (items : List α) :
    sort key (items.map f) = (sort (fun a => key (f a)) items).map f := by
  symm
  apply List.map_mergeSort
  intro a _ b _
  rfl

theorem sortLiterals_of_read {texts : List String} {value : String → Version}
    (read : ∀ t ∈ texts, parse t = .ok (value t)) :
    sortLiterals texts = .ok (sort value texts) := by
  unfold sortLiterals
  split
  · rw [sort, List.mergeSort_nil]
  · rw [sort, List.mergeSort_singleton]
  · rw [readAll_of_read read, Except.map, sort_map, List.map_map]
    exact congrArg Except.ok (List.map_id _)

end DepClause.Version
