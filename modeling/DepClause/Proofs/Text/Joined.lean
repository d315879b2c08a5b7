import DepClause.Proofs.Text.Plain

/-!
# Joining the halves of a text

A text that is put together from pieces has the units of its pieces. Joining its halves keeps these
units, so pieces may be joined before they are put together, and around a character below `U+0080`
each side is joined for itself.
-/

namespace DepClause.Text

/-- The characters of a text whose halves are joined. -/
def join (s : List Char) : List Char := ofUnits (units s)

theorem joined_eq (s : String) : joined s = String.ofList (join s.toList) := rfl

theorem units_append (s t : List Char) : units (s ++ t) = units s ++ units t :=
  List.flatMap_append

theorem units_join (s : List Char) : units (join s) = units s :=
  units_ofUnits (units s) fun _ hu => lt_of_mem_units hu

theorem join_join (s : List Char) : join (join s) = join s := by
  rw [join, units_join, join]

theorem joined_joined (s : String) : joined (joined s) = joined s := by
  rw [joined_eq, joined_eq, String.toList_ofList, join_join]

theorem joined_eq_self_iff {s : String} : joined s = s ↔ join s.toList = s.toList := by
  rw [joined_eq, ← String.toList_inj, String.toList_ofList]

theorem join_append_congr {s s' t t' : List Char} (hs : join s = join s') (ht : join t = join t') :
    join (s ++ t) = join (s' ++ t') := by
  have front : units s = units s' := by rw [← units_join, hs, units_join]
  have behind : units t = units t' := by rw [← units_join, ht, units_join]
  rw [join, join, units_append, units_append, front, behind]

/-- A character below `U+0080` of a joined text is in the text. -/
theorem mem_of_mem_join {s : List Char} {c : Char} (hc : c ∈ join s) (h : c.toNat < 0x80) :
    c ∈ s := by
  have hu : c.toNat ∈ units (join s) :=
    List.mem_flatMap.2 ⟨c, hc, by rw [charUnits_of_lt h]; exact List.mem_singleton_self _⟩
  rw [units_join] at hu
  exact mem_of_mem_units hu h

theorem unitNumbers_append {w : Nat} (h : w < 0x80) (us vs : List Nat) :
    unitNumbers (us ++ w :: vs) = unitNumbers us ++ w :: unitNumbers vs := by
  have alone (ws : List Nat) : unitNumbers (w :: ws) = w :: unitNumbers ws := by
    have number : unitNumber w = w := if_neg (by omega)
    cases ws with
    | nil => rw [unitNumbers, number, unitNumbers]
    | cons x ws => rw [unitNumbers, if_neg (by omega), number]
  fun_induction unitNumbers us with
  | case1 u v us pair ih =>
    rw [List.cons_append, List.cons_append, unitNumbers, if_pos pair, ih, List.append_assoc]
  | case2 u v us apart ih =>
    rw [List.cons_append, List.cons_append, unitNumbers, if_neg apart, ← List.cons_append, ih,
      List.cons_append]
  | case3 u =>
    have apart : ¬(IsFirstHalf u ∧ IsSecondHalf w) := by omega
    rw [List.singleton_append, unitNumbers, if_neg apart, alone]
    rfl
  | case4 => exact alone vs

/-- What is joined on both sides of a character below `U+0080` is joined together. -/
theorem join_append_cons {c : Char} (h : c.toNat < 0x80) (s t : List Char) :
    join (s ++ c :: t) = join s ++ c :: join t := by
  have unit : units (c :: t) = c.toNat :: units t := by
    rw [units, List.flatMap_cons, charUnits_of_lt h]
    rfl
  rw [join, units_append, unit, ofUnits, unitNumbers_append h, List.map_append, List.map_cons,
    Char.ofNat_toNat]
  rfl

end DepClause.Text
