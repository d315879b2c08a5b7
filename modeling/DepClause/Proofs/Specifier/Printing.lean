import DepClause.Proofs.Specifier.Spacing
import DepClause.Proofs.Version.NormalForm

/-!
# Reading specifiers that were written

A specifier is written without blanks, so its operator meets its version. No version starts with an
equals sign, which could make a longer operator of it, and no version holds a star. So a specifier
that was read is read back from what is written for it, and so are specifiers with commas between
them.
-/

namespace DepClause

def Comparator.chars : Comparator → List Char
  | .compatible => ['~', '=']
  | .identical => ['=', '=', '=']
  | .equal => ['=', '=']
  | .notEqual => ['!', '=']
  | .atMost => ['<', '=']
  | .atLeast => ['>', '=']
  | .less => ['<']
  | .greater => ['>']

theorem Comparator.toList_text (op : Comparator) : op.text.toList = op.chars := by
  cases op <;> rfl

/-- The operators that are tried before another one. -/
def Comparator.before (op : Comparator) : List Comparator := all.takeWhile (· ≠ op)

theorem Comparator.all_eq (op : Comparator) :
    all = op.before ++ op :: (all.dropWhile (· ≠ op)).tail := by
  cases op <;> rfl

theorem Comparator.not_prefix_of_before {op other : Comparator} (h : other ∈ op.before) :
    ¬other.chars <+: op.chars := by
  have none : (op.before.all fun other => !decide (other.chars <+: op.chars)) = true := by
    cases op <;> decide
  simpa using List.all_eq_true.1 none other h

/-- An operator that goes on as another one goes on with an equals sign. -/
theorem Comparator.eq_of_longer {op other : Comparator} {c : Char}
    (h : op.chars ++ [c] <+: other.chars) : op ≠ .identical ∧ c = '=' := by
  have longer : op.chars <+: other.chars → op.chars.length < other.chars.length →
      op ≠ .identical ∧ other.chars = op.chars ++ ['='] := by
    cases op <;> cases other <;> decide
  have shorter := h.length_le
  rw [List.length_append, List.length_singleton] at shorter
  obtain ⟨hop, whole⟩ := longer ((List.prefix_append _ _).trans h) shorter
  rw [whole, List.prefix_append_right_inj] at h
  exact ⟨hop, by simpa using h⟩

/-- An operator has no blank and no comma. -/
theorem Comparator.visible (op : Comparator) {c : Char} (hc : c ∈ op.text.toList) :
    Text.isBlank c = false ∧ c ≠ ',' := by
  have all : (op.chars.all fun c => !Text.isBlank c && c != ',') = true := by
    cases op <;> decide
  rw [op.toList_text] at hc
  simpa using List.all_eq_true.1 all c hc

namespace Specifier

theorem toList_render (s : Specifier) :
    s.render.toList = s.operator.text.toList ++ s.written := by
  cases hw : s.wildcard <;> simp [render, written, hw]

/-- An operator is found in front of a text that makes no longer operator of it. -/
theorem split?_append {op : Comparator} {c : Char} {cs : List Char}
    (visible : ∀ d ∈ c :: cs, Text.isBlank d = false) (apart : op = .identical ∨ c ≠ '=') :
    split? (op.text.toList ++ c :: cs) = some (op, c :: cs) := by
  have left : Text.trimLeft (c :: cs) = c :: cs :=
    Text.trimLeft_cons (visible c List.mem_cons_self) cs
  have whole : (c :: cs).all (!Text.isBlank ·) = true := by simpa using visible
  refine List.findSome?_eq_some_iff.2 ⟨op.before, op, _, op.all_eq, ?_, ?_⟩
  · simp [left, whole]
  · intro other earlier
    have passed : ¬other.chars <+: op.chars ++ c :: cs := by
      intro starts
      have whole : op.chars ++ [c] <+: op.chars ++ c :: cs := by simp
      have longer : ¬op.chars ++ [c] <+: other.chars := by
        intro h
        obtain ⟨hop, hc⟩ := Comparator.eq_of_longer h
        exact apart.elim hop (absurd hc)
      rcases List.prefix_or_prefix_of_prefix starts whole with h | h
      · rcases List.prefix_concat_iff.1 h with h | h
        · exact longer (h ▸ List.prefix_rfl)
        · exact Comparator.not_prefix_of_before earlier h
      · exact longer h
    simp [Comparator.toList_text, passed]

/-! ## One specifier -/

/-- A wildcard is found behind a version and only there. -/
theorem Targets.stripWildcard?_written {s : Specifier} {v : Version} (h : s.Targets v) :
    stripWildcard? s.written = if s.wildcard then some s.version.toList else none := by
  cases hw : s.wildcard with
  | true => exact stripWildcard?_eq_some_iff.2 (by simp [written, hw])
  | false =>
    have whole : s.written = s.version.toList := by simp [written, hw]
    rw [whole]
    cases found : stripWildcard? s.version.toList with
    | none => rfl
    | some front =>
      have star : '*' ∈ s.version.toList := by simp [stripWildcard?_eq_some_iff.1 found]
      exact absurd star (Version.star_not_mem_of_parse h.version)

/-- What a text has to be to be read as a specifier. -/
theorem parse_eq_ok_iff {text : String} {s : Specifier} :
    parse text = .ok s ↔
      split? (Text.trim text.toList) = some (s.operator, s.written) ∧ s.Readable := by
  refine ⟨split?_of_parse, ?_⟩
  rintro ⟨hs, read⟩
  unfold parse
  dsimp only
  rw [hs]
  by_cases hop : s.operator = .identical
  · have bare := read.bare hop
    obtain ⟨op, version, wildcard⟩ := s
    simp_all [written, pure, Except.pure]
  · obtain ⟨v, target⟩ := read.targets hop
    have version : String.ofList ((stripWildcard? s.written).getD s.written) = s.version := by
      rw [target.stripWildcard?_written]
      cases hw : s.wildcard <;> simp [written, hw]
    have wildcard : (stripWildcard? s.written).isSome = s.wildcard := by
      rw [target.stripWildcard?_written]
      cases s.wildcard <;> rfl
    have allowed : ¬(s.wildcard = true ∧ s.operator ≠ .equal ∧ s.operator ≠ .notEqual) := by
      rintro ⟨hw, he, hn⟩
      exact (target.wildcard hw).elim he hn
    simp only [if_neg hop, version, wildcard, if_neg allowed, target.version, bind, Except.bind]
    by_cases hc : s.operator = .compatible
    · obtain ⟨up, hup⟩ :=
        exists_upperBound (target.compatible hc) (some (String.ofList (Text.trim text.toList)))
      simp only [if_pos hc, hup]
      rfl
    · simp only [if_neg hc]
      rfl

theorem Targets.ne_equals {s : Specifier} {v : Version} (h : s.Targets v) {c : Char}
    (hc : c ∈ s.written) : c ≠ '=' := by
  rintro rfl
  rcases List.mem_append.1 hc with hc | hc
  · exact absurd (Version.isVersionChar_of_parse h.version hc rfl) (by decide)
  · cases hw : s.wildcard <;> simp [hw] at hc

theorem parse_render {text : String} {s : Specifier} (h : parse text = .ok s) :
    parse s.render = .ok s := by
  obtain ⟨hs, read⟩ := split?_of_parse h
  obtain ⟨-, hne, visible⟩ := exists_of_split? hs
  have whole : Text.trim s.render.toList = s.render.toList := by
    apply Text.trim_of_not_blank
    intro c hc
    rw [toList_render, List.mem_append] at hc
    exact hc.elim (fun hc => (s.operator.visible hc).1) (visible c)
  obtain ⟨c, cs, hcs⟩ := List.exists_cons_of_ne_nil hne
  have apart : s.operator = .identical ∨ c ≠ '=' := by
    refine or_iff_not_imp_left.2 fun hop => ?_
    obtain ⟨v, target⟩ := read.targets hop
    exact target.ne_equals (hcs ▸ List.mem_cons_self)
  rw [hcs] at visible
  exact parse_eq_ok_iff.2 ⟨by rw [whole, toList_render, hcs, split?_append visible apart], read⟩

/-! ## Specifiers between commas -/

/-- Each specifier of a text was read from a part of its own, in which there is no comma. -/
theorem exists_part_of_parseAll {text : String} {specifiers : List Specifier}
    (h : parseAll text = .ok specifiers) {s : Specifier} (hs : s ∈ specifiers) :
    ∃ part : String, parse part = .ok s ∧ ',' ∉ part.toList := by
  obtain ⟨part, mem, read⟩ := exists_of_mem_mapM h hs
  obtain ⟨piece, hp, rfl⟩ := List.mem_map.1 (List.mem_filter.1 mem).1
  refine ⟨_, read, fun comma => ?_⟩
  rw [String.toList_ofList] at comma
  exact Text.not_mem_of_mem_splitOn hp (Text.mem_of_mem_trim comma)

theorem readable_of_parseAll {text : String} {specifiers : List Specifier}
    (h : parseAll text = .ok specifiers) {s : Specifier} (hs : s ∈ specifiers) : s.Readable := by
  obtain ⟨part, read, -⟩ := exists_part_of_parseAll h hs
  exact (split?_of_parse read).2

/-- Behind the operator of a specifier that was read stands a text that a clause can hold: it is not
empty and has no blank and no comma. -/
theorem written_of_parseAll {text : String} {specifiers : List Specifier}
    (h : parseAll text = .ok specifiers) {s : Specifier} (hs : s ∈ specifiers) :
    s.written ≠ [] ∧ ∀ c ∈ s.written, Text.isBlank c = false ∧ c ≠ ',' := by
  obtain ⟨part, read, comma⟩ := exists_part_of_parseAll h hs
  obtain ⟨⟨gap, _, whole⟩, hne, visible⟩ := exists_of_split? (split?_of_parse read).1
  refine ⟨hne, fun c hc => ⟨visible c hc, ?_⟩⟩
  rintro rfl
  have trimmed : ',' ∈ Text.trim part.toList := by simp [whole, hc]
  exact comma (Text.mem_of_mem_trim trimmed)

theorem render_visible {text : String} {specifiers : List Specifier}
    (h : parseAll text = .ok specifiers) {s : Specifier} (hs : s ∈ specifiers) :
    s.render.toList ≠ [] ∧ ∀ c ∈ s.render.toList, Text.isBlank c = false ∧ c ≠ ',' := by
  obtain ⟨hne, visible⟩ := written_of_parseAll h hs
  rw [toList_render]
  refine ⟨List.append_ne_nil_of_right_ne_nil _ hne, fun c hc => ?_⟩
  exact (List.mem_append.1 hc).elim s.operator.visible (visible c)

/-- The parts of the text that is written for specifiers are what is written for each. -/
theorem parts_renderAll {specifiers : List Specifier} (hne : specifiers ≠ [])
    (visible : ∀ s ∈ specifiers, s.render.toList ≠ [] ∧
      ∀ c ∈ s.render.toList, Text.isBlank c = false ∧ c ≠ ',') :
    (((renderAll specifiers).toList.splitOn ',').map Text.trim).filter (!·.isEmpty) =
      specifiers.map fun s => s.render.toList := by
  have cut : (renderAll specifiers).toList.splitOn ',' =
      specifiers.map fun s => s.render.toList := by
    rw [renderAll, String.toList_intercalate, List.map_map]
    apply List.splitOn_intercalate
    · intro part hp comma
      obtain ⟨s, hs, rfl⟩ := List.mem_map.1 hp
      exact ((visible s hs).2 ',' comma).2 rfl
    · simpa using hne
  have trimmed : (specifiers.map fun s => s.render.toList).map Text.trim =
      specifiers.map fun s => s.render.toList := by
    rw [List.map_map]
    refine List.map_congr_left fun s hs => ?_
    exact Text.trim_of_not_blank fun c hc => ((visible s hs).2 c hc).1
  rw [cut, trimmed, List.filter_eq_self]
  intro part hp
  obtain ⟨s, hs, rfl⟩ := List.mem_map.1 hp
  simpa using (visible s hs).1

/-- **Specifiers are read back.** What is written for the specifiers of a text, with commas between
them, is read as the same specifiers, in their order and each with its operator, version text and
wildcard. So it is a normal form: other specifiers are written otherwise. -/
theorem renderAll_reads_back {text : String} {specifiers : List Specifier}
    (h : parseAll text = .ok specifiers) :
    parseAll (renderAll specifiers) = .ok specifiers ∧
      ∀ other others, parseAll other = .ok others →
        (renderAll others = renderAll specifiers ↔ others = specifiers) := by
  have back {text : String} {specifiers : List Specifier} (h : parseAll text = .ok specifiers) :
      parseAll (renderAll specifiers) = .ok specifiers := by
    by_cases hne : specifiers = []
    · subst hne
      rfl
    · rw [parseAll, parts_renderAll hne fun s hs => render_visible h hs]
      refine mapM_map_eq_ok fun s hs => ?_
      obtain ⟨part, read, -⟩ := exists_part_of_parseAll h hs
      rw [String.ofList_toList, parse_render read]
  refine ⟨back h, fun other others hother => ⟨fun same => ?_, fun same => by rw [same]⟩⟩
  have read := back hother
  rw [same, back h] at read
  exact (Except.ok.inj read).symm

/-- The text of `===` may start with an equals sign and end as a wildcard does. -/
theorem renderAll_reads_back_of_spaced :
    parseAll " ~= 1.4.2 ,, === ==a.*, !=v1.5.* ," = .ok
        [⟨.compatible, "1.4.2", false⟩, ⟨.identical, "==a.*", false⟩,
          ⟨.notEqual, "v1.5", true⟩] ∧
      parseAll "~=1.4.2,=====a.*,!=v1.5.*" = .ok
        [⟨.compatible, "1.4.2", false⟩, ⟨.identical, "==a.*", false⟩,
          ⟨.notEqual, "v1.5", true⟩] := by
  have read : parseAll " ~= 1.4.2 ,, === ==a.*, !=v1.5.* ," = .ok
      [⟨.compatible, "1.4.2", false⟩, ⟨.identical, "==a.*", false⟩,
        ⟨.notEqual, "v1.5", true⟩] := by cbv
  exact ⟨read, (renderAll_reads_back read).1⟩

end Specifier

end DepClause
