import DepClause.Text.Plain

/-!
# What a plain text keeps

Making a text plain changes halves only. Around a character that is no half it can be done piece
by piece, it brings in no character below `U+0080`, and a text of such characters is what comes of
no text but itself.
-/

namespace DepClause.Text

theorem mem_charUnits {c : Char} {u : Nat} (hu : u ∈ charUnits c) :
    u < 0x10000 ∧ (u < 0x80 → c.toNat = u) := by
  have valid : c.toNat < 0x110000 := by
    rcases c.valid with h | ⟨_, h⟩
    · exact Nat.lt_trans h (by decide)
    · exact h
  grind [charUnits, numberUnits, encodeNumber]

theorem charUnits_ne_nil (c : Char) : charUnits c ≠ [] := by
  grind [charUnits, numberUnits, encodeNumber]

theorem lt_of_mem_units {s : List Char} {u : Nat} (hu : u ∈ units s) : u < 0x10000 := by
  obtain ⟨c, -, hc⟩ := List.mem_flatMap.1 hu
  exact (mem_charUnits hc).1

theorem charUnits_of_lt {c : Char} (h : c.toNat < 0x80) : charUnits c = [c.toNat] := by
  grind [charUnits, numberUnits, encodeNumber]

theorem toNat_plainUnit {u : Nat} (hu : u < 0x10000) (h : (plainUnit u).toNat < 0x80) :
    (plainUnit u).toNat = u := by
  rw [plainUnit] at h ⊢
  split at h
  · exact absurd h (by decide)
  · rename_i whole
    rw [if_neg whole]
    exact toNat_ofNat (by unfold Nat.isValidChar; omega)

theorem toNat_pairNumber {u v : Nat} (h : IsFirstHalf u ∧ IsSecondHalf v) :
    ¬(Char.ofNat (pairNumber u v)).toNat < 0x80 := by
  have number : pairNumber u v = 0x10000 + (u - 0xD800) * 0x400 + (v - 0xDC00) := rfl
  rw [toNat_ofNat (by unfold Nat.isValidChar; omega)]
  omega

theorem mem_units {us : List Nat} (small : ∀ u ∈ us, u < 0x10000) {c : Char}
    (hc : c ∈ plainOfUnits us) (h : c.toNat < 0x80) : c.toNat ∈ us := by
  fun_induction plainOfUnits us with
  | case1 u v us pair ih =>
    rcases List.mem_cons.1 hc with eq | hc
    · exact absurd (eq ▸ h) (toNat_pairNumber pair)
    · have := ih (fun w hw => small w (by simp [hw])) hc
      simp [this]
  | case2 u v us alone ih =>
    rcases List.mem_cons.1 hc with rfl | hc
    · simp [toNat_plainUnit (small u (by simp)) h]
    · exact List.mem_cons_of_mem _ (ih (fun w hw => small w (List.mem_cons_of_mem _ hw)) hc)
  | case3 u =>
    rw [List.mem_singleton.1 hc] at h ⊢
    simp [toNat_plainUnit (small u (by simp)) h]
  | case4 => cases hc

/-- A character below `U+0080` is the only one that has its number as a unit. -/
theorem mem_of_mem_units {s : List Char} {c : Char} (hu : c.toNat ∈ units s)
    (h : c.toNat < 0x80) : c ∈ s := by
  obtain ⟨d, hd, hcd⟩ := List.mem_flatMap.1 hu
  have same : d = c := Char.toNat_inj.1 ((mem_charUnits hcd).2 h)
  exact same ▸ hd

/-- A character below `U+0080` of a plain text is in the text that it was made of. -/
theorem mem_of_mem_toPlain {s : String} {c : Char} (hc : c ∈ (toPlain s).toList)
    (h : c.toNat < 0x80) : c ∈ s.toList := by
  have hu : c.toNat ∈ units s.toList :=
    mem_units (fun _ hu => lt_of_mem_units hu) (by simpa [toPlain] using hc) h
  exact mem_of_mem_units hu h

theorem plainOfUnits_cons {u : Nat} (whole : ¬IsFirstHalf u) (us : List Nat) :
    plainOfUnits (u :: us) = plainUnit u :: plainOfUnits us := by
  cases us with
  | nil => rfl
  | cons v us => rw [plainOfUnits, if_neg fun h => whole h.1]

theorem plainOfUnits_append {w : Nat} (h : w < 0x80) (us vs : List Nat) :
    plainOfUnits (us ++ w :: vs) = plainOfUnits us ++ plainUnit w :: plainOfUnits vs := by
  have whole : ¬IsFirstHalf w := by omega
  fun_induction plainOfUnits us with
  | case1 u v us pair ih =>
    rw [List.cons_append, List.cons_append, plainOfUnits, if_pos pair, ih, List.cons_append]
  | case2 u v us alone ih =>
    rw [List.cons_append, List.cons_append, plainOfUnits, if_neg alone, ← List.cons_append, ih,
      List.cons_append]
  | case3 u =>
    have alone : ¬(IsFirstHalf u ∧ IsSecondHalf w) := by omega
    rw [List.singleton_append, plainOfUnits, if_neg alone, plainOfUnits_cons whole]
    rfl
  | case4 => exact plainOfUnits_cons whole vs

/-- What is plain on both sides of a character below `U+0080` is plain together. -/
theorem toPlain_append {c : Char} (h : c.toNat < 0x80) (s t : List Char) :
    (toPlain (String.ofList (s ++ c :: t))).toList
      = (toPlain (String.ofList s)).toList ++ c :: (toPlain (String.ofList t)).toList := by
  have unit : plainUnit c.toNat = c := by
    rw [plainUnit, if_neg (by omega), Char.ofNat_toNat]
  simp only [toPlain, String.toList_ofList, units, List.flatMap_append, List.flatMap_cons,
    charUnits_of_lt h]
  rw [List.singleton_append, plainOfUnits_append h, unit]

theorem unit_lt {us : List Nat} (small : ∀ u ∈ us, u < 0x10000)
    (h : ∀ c ∈ plainOfUnits us, c.toNat < 0x80) : ∀ u ∈ us, u < 0x80 := by
  fun_induction plainOfUnits us with
  | case1 u v us pair ih => exact absurd (h _ List.mem_cons_self) (toNat_pairNumber pair)
  | case2 u v us alone ih =>
    have hu := h _ List.mem_cons_self
    have rest := ih (fun w hw => small w (List.mem_cons_of_mem _ hw))
      (fun c hc => h c (List.mem_cons_of_mem _ hc))
    rw [toNat_plainUnit (small u List.mem_cons_self) hu] at hu
    simpa using ⟨hu, by simpa using rest⟩
  | case3 u =>
    have hu := h _ List.mem_cons_self
    rw [toNat_plainUnit (small u List.mem_cons_self) hu] at hu
    simpa using hu
  | case4 => simp

theorem plainOfUnits_units {s : List Char} (small : ∀ c ∈ s, c.toNat < 0x80) :
    plainOfUnits (units s) = s := by
  induction s with
  | nil => rfl
  | cons c s ih =>
    have hc : c.toNat < 0x80 := small c List.mem_cons_self
    rw [units, List.flatMap_cons, charUnits_of_lt hc, List.singleton_append,
      plainOfUnits_cons (by omega), plainUnit, if_neg (by omega), Char.ofNat_toNat]
    exact congrArg _ (ih fun d hd => small d (List.mem_cons_of_mem c hd))

/-- A plain text of characters below `U+0080` was made of itself. -/
theorem toPlain_eq_iff {s t : String} (small : ∀ c ∈ t.toList, c.toNat < 0x80) :
    toPlain s = t ↔ s = t := by
  constructor
  · rintro rfl
    have chars : ∀ c ∈ s.toList, c.toNat < 0x80 := by
      intro c hc
      have units_small := unit_lt (fun _ hu => lt_of_mem_units hu) (by simpa [toPlain] using small)
      obtain ⟨u, hu⟩ := List.exists_mem_of_ne_nil _ (charUnits_ne_nil c)
      have hu' : u < 0x80 := units_small u (List.mem_flatMap.2 ⟨c, hc, hu⟩)
      rw [(mem_charUnits hu).2 hu']
      exact hu'
    rw [toPlain, plainOfUnits_units chars, String.ofList_toList]
  · rintro rfl
    rw [toPlain, plainOfUnits_units small, String.ofList_toList]

end DepClause.Text
