/-!
# UTF-16 units

Positions in a text count UTF-16 units, texts are ordered by them, and a glob reads them one by
one. A character above `U+FFFF` is two units, its halves.

An escape in a document can write one half alone, so a text can hold halves. The last 2048
characters stand for them, and each of those characters is itself held as its two halves. So every
run of units has its text, and `units_ofUnits` says that nothing of the run is lost.
-/

namespace DepClause.Text

abbrev IsFirstHalf (u : Nat) : Prop := 0xD800 ≤ u ∧ u < 0xDC00

abbrev IsSecondHalf (u : Nat) : Prop := 0xDC00 ≤ u ∧ u < 0xE000

/-- The number of the first character that stands for a half. -/
abbrev halvesStart : Nat := 0x10F800

/-- The distance from a half to the number of the character that stands for it. -/
abbrev halvesShift : Nat := 0x102000

/-- The number of the character that two halves make. -/
def pairNumber (first second : Nat) : Nat :=
  0x10000 + (first - 0xD800) * 0x400 + (second - 0xDC00)

/-- The UTF-16 units of the number of a character. -/
def encodeNumber (n : Nat) : List Nat :=
  if n < 0x10000 then [n]
  else [0xD800 + (n - 0x10000) / 0x400, 0xDC00 + (n - 0x10000) % 0x400]

/-- The UTF-16 units of the number of a character, which may stand for a half. -/
def numberUnits (n : Nat) : List Nat :=
  if halvesStart ≤ n then [n - halvesShift] else encodeNumber n

def charUnits (c : Char) : List Nat := numberUnits c.toNat

/-- The UTF-16 units of a text. -/
def units (s : List Char) : List Nat := s.flatMap charUnits

/-- The number of UTF-16 units of a text. -/
def width (s : List Char) : Nat := (units s).length

/-- Texts in the order of their units. -/
def compareUnits (a b : String) : Ordering := compare (units a.toList) (units b.toList)

/-- The number of the character that a unit is on its own. -/
def unitNumber (u : Nat) : Nat := if 0xD800 ≤ u ∧ u < 0xE000 then u + halvesShift else u

/-- The numbers of the characters that hold two halves which belong together. -/
def pairNumbers (first second : Nat) : List Nat :=
  if pairNumber first second < halvesStart then [pairNumber first second]
  else [unitNumber first, unitNumber second]

/-- The numbers of the characters of a run of units. -/
def unitNumbers : List Nat → List Nat
  | u :: v :: us =>
    if IsFirstHalf u ∧ IsSecondHalf v then pairNumbers u v ++ unitNumbers us
    else unitNumber u :: unitNumbers (v :: us)
  | [u] => [unitNumber u]
  | [] => []

/-- The text of a run of units. -/
def ofUnits (us : List Nat) : List Char := (unitNumbers us).map Char.ofNat

/-- A text whose halves are joined wherever two that belong together are side by side. -/
def joined (s : String) : String := String.ofList (ofUnits (units s.toList))

/-- The first unit of a character, where it is shown alone. -/
def firstUnit (c : Char) : Char :=
  match charUnits c with
  | u :: _ => Char.ofNat (unitNumber u)
  | [] => c

theorem numberUnits_unitNumber {u : Nat} (h : u < 0x10000) : numberUnits (unitNumber u) = [u] := by
  grind [unitNumber, numberUnits, encodeNumber]

theorem pairNumbers_of_lt {u v : Nat} (h : pairNumber u v < halvesStart) :
    pairNumbers u v = [pairNumber u v] := if_pos h

theorem pairNumbers_of_not_lt {u v : Nat} (h : ¬pairNumber u v < halvesStart) :
    pairNumbers u v = [unitNumber u, unitNumber v] := if_neg h

theorem numberUnits_pairNumber {u v : Nat} (hu : IsFirstHalf u) (hv : IsSecondHalf v)
    (h : pairNumber u v < halvesStart) : numberUnits (pairNumber u v) = [u, v] := by
  have hp : pairNumber u v = 0x10000 + (u - 0xD800) * 0x400 + (v - 0xDC00) := rfl
  rw [numberUnits, if_neg (Nat.not_le.2 h), encodeNumber,
    if_neg (show ¬pairNumber u v < 0x10000 by omega)]
  simp only [List.cons.injEq, and_true]
  omega

theorem flatMap_pairNumbers {u v : Nat} (hu : IsFirstHalf u) (hv : IsSecondHalf v) :
    (pairNumbers u v).flatMap numberUnits = [u, v] := by
  by_cases h : pairNumber u v < halvesStart
  · rw [pairNumbers_of_lt h]
    simp [numberUnits_pairNumber hu hv h]
  · rw [pairNumbers_of_not_lt h]
    simp [numberUnits_unitNumber (show u < 0x10000 by omega),
      numberUnits_unitNumber (show v < 0x10000 by omega)]

theorem flatMap_unitNumbers (us : List Nat) (h : ∀ u ∈ us, u < 0x10000) :
    (unitNumbers us).flatMap numberUnits = us := by
  fun_induction unitNumbers us with
  | case1 u v us hp ih =>
    rw [List.flatMap_append, flatMap_pairNumbers hp.1 hp.2, ih fun w hw => h w (by simp [hw])]
    rfl
  | case2 u v us hp ih =>
    rw [List.flatMap_cons, numberUnits_unitNumber (h u (by simp)),
      ih fun w hw => h w (List.mem_cons_of_mem u hw)]
    rfl
  | case3 u => simp [numberUnits_unitNumber (h u (by simp))]
  | case4 => rfl

theorem isValidChar_unitNumber {u : Nat} (h : u < 0x10000) : (unitNumber u).isValidChar := by
  grind [unitNumber]

theorem isValidChar_of_mem_pairNumbers {u v n : Nat} (hu : IsFirstHalf u) (hv : IsSecondHalf v)
    (hn : n ∈ pairNumbers u v) : n.isValidChar := by
  by_cases h : pairNumber u v < halvesStart
  · have hp : pairNumber u v = 0x10000 + (u - 0xD800) * 0x400 + (v - 0xDC00) := rfl
    rw [pairNumbers_of_lt h, List.mem_singleton] at hn
    exact Or.inr ⟨by omega, by omega⟩
  · rw [pairNumbers_of_not_lt h] at hn
    grind [isValidChar_unitNumber]

theorem isValidChar_of_mem_unitNumbers (us : List Nat) (h : ∀ u ∈ us, u < 0x10000) (n : Nat)
    (hn : n ∈ unitNumbers us) : n.isValidChar := by
  fun_induction unitNumbers us with
  | case1 u v us hp ih =>
    exact (List.mem_append.1 hn).elim (isValidChar_of_mem_pairNumbers hp.1 hp.2)
      (ih fun w hw => h w (by simp [hw]))
  | case2 u v us hp ih =>
    exact (List.mem_cons.1 hn).elim (fun hn => hn ▸ isValidChar_unitNumber (h u (by simp)))
      (ih fun w hw => h w (List.mem_cons_of_mem u hw))
  | case3 u => exact List.mem_singleton.1 hn ▸ isValidChar_unitNumber (h u (by simp))
  | case4 => simp at hn

theorem toNat_ofNat {n : Nat} (h : n.isValidChar) : (Char.ofNat n).toNat = n := by
  rw [Char.ofNat, dif_pos h]
  rfl

/-- The text of a run of units has these units. -/
theorem units_ofUnits (us : List Nat) (h : ∀ u ∈ us, u < 0x10000) : units (ofUnits us) = us := by
  have hc : (unitNumbers us).map (fun n => charUnits (Char.ofNat n)) =
      (unitNumbers us).map numberUnits :=
    List.map_congr_left fun n hn => by
      rw [charUnits, toNat_ofNat (isValidChar_of_mem_unitNumbers us h n hn)]
  rw [units, ofUnits, List.flatMap_map, List.flatMap_def, hc, ← List.flatMap_def,
    flatMap_unitNumbers us h]

end DepClause.Text
