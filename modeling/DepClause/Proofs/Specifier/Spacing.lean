import DepClause.Proofs.Specifier.Valid
import DepClause.Proofs.Text.Trim

/-!
# Blanks around specifiers

Blanks at the ends of a specifier text make no difference. A text that is read starts, up to blanks,
with an operator or with the comma behind an empty part.
-/

namespace DepClause

/-- The characters that an operator starts with. -/
def Comparator.starts : List Char := ['~', '=', '!', '<', '>']

theorem Comparator.mem_starts {op : Comparator} {c : Char} {s : List Char}
    (h : op.text.toList <+: c :: s) : c ∈ starts := by
  obtain ⟨rest, hr⟩ := h
  cases op <;> (cases hr; decide)

namespace Specifier

theorem parseAll_trim (text : String) : parseAll (trim text) = parseAll text := by
  have comma : Text.isBlank ',' = false := rfl
  rw [parseAll, trim, String.toList_ofList, Text.map_trim_splitOn_trim comma, parseAll]

/-- Behind the operator and blanks stands a text without blanks. -/
theorem exists_of_split? {s rest : List Char} {op : Comparator} (h : split? s = some (op, rest)) :
    (∃ gap, Text.Blank gap ∧ s = op.text.toList ++ (gap ++ rest)) ∧ rest ≠ [] ∧
      ∀ c ∈ rest, Text.isBlank c = false := by
  obtain ⟨other, _, ho⟩ := List.exists_of_findSome?_eq_some h
  dsimp only at ho
  split at ho
  · next found =>
    obtain ⟨rfl, rfl⟩ := Prod.mk.inj (Option.some.inj ho)
    rw [Bool.and_eq_true, Bool.and_eq_true] at found
    obtain ⟨⟨starts, filled⟩, visible⟩ := found
    obtain ⟨t, rfl⟩ := List.isPrefixOf_iff_prefix.1 starts
    rw [List.drop_left] at filled visible ⊢
    obtain ⟨gap, blank, whole⟩ := Text.exists_blank_front t
    refine ⟨⟨gap, blank, by rw [← whole]⟩, by simpa using filled, ?_⟩
    simpa using visible
  · cases ho

theorem exists_prefix_of_parse {text : String} {s : Specifier} (h : parse text = .ok s) :
    ∃ op : Comparator, op.text.toList <+: Text.trim text.toList := by
  obtain ⟨⟨gap, _, whole⟩, _⟩ := exists_of_split? (split?_of_parse h).1
  exact ⟨s.operator, gap ++ s.written, whole.symm⟩

/-- What a specifier text starts with: a comma stands behind an empty part. -/
def openers : List Char := ',' :: Comparator.starts

theorem opensWith_of_parseAll {text : String} {specifiers : List Specifier}
    (h : parseAll text = .ok specifiers) : Text.OpensWith openers text.toList := by
  rcases Text.blank_or_exists text.toList with blank | ⟨front, c, rest, whole, hf, hc⟩
  · exact .inl blank
  refine .inr ⟨front, c, rest, whole, hf, ?_⟩
  by_cases comma : c = ','
  · rw [comma]
    exact List.mem_cons_self
  obtain ⟨t, ht⟩ := Text.exists_mem_map_trim_splitOn hc (Ne.symm comma) hf rfl rest
  rw [← whole] at ht
  have part : c :: t ∈ ((text.toList.splitOn ',').map Text.trim).filter (!·.isEmpty) :=
    List.mem_filter.2 ⟨ht, rfl⟩
  obtain ⟨s, _, hs⟩ := exists_ok_of_mapM h part
  obtain ⟨op, starts⟩ := exists_prefix_of_parse hs
  rw [String.toList_ofList, Text.trim_cons hc] at starts
  exact List.mem_cons_of_mem ',' (Comparator.mem_starts starts)

end Specifier

end DepClause
