import DepClause.Proofs.Clause.Translation

/-!
# The form of clauses

A version in a clause is a text without hyphens, commas and blanks, wherever it comes from: from the
text of a specifier, from a label, or from an upper bound. So the end of each clause can be seen,
and clauses with commas between them can be taken apart again, whatever the capability is called.
-/

namespace DepClause

/-- A text that can stand as the version of a clause. -/
structure IsField (text : String) : Prop where
  ne_nil : text.toList ≠ []
  chars : ∀ c ∈ text.toList, c ≠ '-' ∧ c ≠ ',' ∧ Text.isBlank c = false

theorem Version.IsLabelChar.field {c : Char} (h : IsLabelChar c) :
    c ≠ '-' ∧ c ≠ ',' ∧ Text.isBlank c = false := by
  refine ⟨h.ne_hyphen, ?_, h.not_blank⟩
  rintro rfl
  rcases h with h | h | h | h | h <;> exact absurd h (by decide)

theorem Version.isField_label {v : Version} (hv : v.WellFormed) : IsField v.label where
  ne_nil := by
    obtain ⟨n, rest, release⟩ := releaseChars_eq v.release
    simp [label, labelChars_eq, labelBody, release]
  chars c hc := by
    rw [label, String.toList_ofList] at hc
    exact (isLabelChar_labelChars hv hc).field

/-- An upper bound has an epoch and a release and nothing else. -/
theorem Version.isField_render_bound {epoch : Nat} {release : List Nat} (hne : release ≠ []) :
    IsField ({ epoch, release } : Version).render where
  ne_nil := by
    obtain ⟨n, ns, rfl⟩ := List.exists_cons_of_ne_nil hne
    simp [render, chars, releaseChars, intercalate_point, numeral_ne_nil]
  chars c hc := by
    simp only [render, String.toList_ofList, chars, List.append_nil, List.mem_append] at hc
    rcases hc with hc | hc
    · split at hc
      · cases hc
      · rcases List.mem_append.1 hc with hc | hc
        · exact (isLabelChar_numeral hc).field
        · rw [List.mem_singleton.1 hc]
          decide
    · exact (isLabelChar_releaseChars hc).field

/-- Without blanks and commas, what a clause holds of a text is a field. -/
theorem ClauseStyle.isField_literalVersion {text : String} (hne : text.toList ≠ [])
    (visible : ∀ c ∈ text.toList, Text.isBlank c = false ∧ c ≠ ',') :
    IsField (literalVersion text) := by
  have whole : Text.trim text.toList = text.toList :=
    Text.trim_of_not_blank fun c hc => (visible c hc).1
  constructor
  · simpa [literalVersion, whole] using hne
  · intro c hc
    rw [literalVersion, whole, String.toList_ofList] at hc
    obtain ⟨d, hd, rfl⟩ := List.mem_map.1 hc
    split
    · decide
    · next other => exact ⟨other, (visible d hd).2, (visible d hd).1⟩

/-! ## The texts of clauses -/

theorem Relation.visible (relation : Relation) :
    ∀ c ∈ relation.text.toList, (!Text.isBlank c) = true :=
  List.all_eq_true.1 (by cases relation <;> rfl)

namespace Clause

def version : Clause → String
  | .holds _ version => version
  | .apart version => version

/-- The operator in front of the version. -/
def sign : Clause → String
  | .holds relation _ => relation.text
  | .apart _ => Relation.less.text

/-- What a clause has behind its version. -/
def behind (name : String) : Clause → List Char
  | .holds _ _ => []
  | .apart version => ' ' :: ("or " ++ name ++ " > " ++ version).toList

theorem toList_render (name : String) (c : Clause) : (c.render name).toList =
    name.toList ++
      ' ' :: (c.sign.toList ++ ' ' :: (c.version.toList ++ c.behind name)) := by
  cases c <;> simp [render, sign, version, behind, Relation.text]

/-- Clauses on a named capability, each behind a comma. -/
def trail (name : String) (cs : List Clause) : List Char :=
  cs.flatMap fun c => ", ".toList ++ (c.render name).toList

theorem toList_join (name : String) (c : Clause) (cs : List Clause) :
    (", ".intercalate ((c :: cs).map (render name))).toList =
      (c.render name).toList ++ trail name cs := by
  rw [String.toList_intercalate, List.map_map, List.map_cons, Text.intercalate_cons,
    List.flatMap_map]
  rfl

section
variable {name : String} {cs ds : List Clause}

end

/-- Texts without commas are what stands between the commas of what is written for them. -/
theorem parts_join {texts : List String} (hne : texts ≠ []) (h : ∀ t ∈ texts, ',' ∉ t.toList) :
    ((", ".intercalate texts).toList.splitOn ',').map Text.trim =
      texts.map fun t => Text.trim t.toList := by
  obtain ⟨t, ts, rfl⟩ := List.exists_cons_of_ne_nil hne
  have whole : (", ".intercalate (t :: ts)).toList =
      [','].intercalate (t.toList :: ts.map fun u => ' ' :: u.toList) := by
    rw [String.toList_intercalate, List.map_cons, Text.intercalate_cons, Text.intercalate_cons]
    simp [List.flatMap_map]
  have blank : Text.Blank [' '] := by decide
  rw [whole, List.splitOn_intercalate ',' (by simpa using h) (by simp), List.map_cons,
    List.map_cons, List.map_map]
  exact congrArg _ (List.map_congr_left fun u _ => Text.trim_blank_append blank u.toList)

end Clause

/-! ## What a translation writes -/

theorem Specifier.version_visible {text : String} {specifiers : List Specifier}
    (h : parseAll text = .ok specifiers) {s : Specifier} (hs : s ∈ specifiers) :
    s.version.toList ≠ [] ∧ ∀ c ∈ s.version.toList, Text.isBlank c = false ∧ c ≠ ',' := by
  obtain ⟨hne, visible⟩ := written_of_parseAll h hs
  refine ⟨fun none => ?_, fun c hc => visible c (List.mem_append_left _ hc)⟩
  by_cases hop : s.operator = .identical
  · have bare := (readable_of_parseAll h hs).bare hop
    exact hne (by simp [written, none, bare])
  · obtain ⟨v, target⟩ := (readable_of_parseAll h hs).targets hop
    have empty : s.version = "" := String.toList_eq_nil_iff.1 none
    have missing : Version.isVersion "" = false := by cbv
    rw [← empty, Version.isVersion_of_parse target.version] at missing
    cases missing

namespace ClauseStyle

/-- A version text of a clause for the specifier. As a label, it has the epoch of the version and no
release of a package. -/
structure Field (style : ClauseStyle) (s : Specifier) (text : String) : Prop
    extends IsField text where
  label : style.versions = .rpm → s.operator ≠ .identical →
    ∃ v, Version.parse s.version = .ok v ∧ (Label.parse text).epoch = v.epoch ∧
      (Label.parse text).release = none

variable {style : ClauseStyle} {s : Specifier} {v w : Version} {name text : String}
  {specifiers : List Specifier}

theorem field_of_literal (h : style.versions = .literal ∨ s.operator = .identical)
    (field : IsField text) : style.Field s text := by
  refine ⟨field, fun rpm hop => ?_⟩
  rcases h with literal | identical
  · rw [rpm] at literal
    cases literal
  · exact absurd identical hop

theorem field_label (hv : Version.parse s.version = .ok v) (hw : w.WellFormed)
    (epoch : w.epoch = v.epoch) : style.Field s w.label := by
  refine ⟨Version.isField_label hw, fun _ _ => ⟨v, hv, ?_⟩⟩
  rw [Version.parse_label hw]
  exact ⟨epoch, rfl⟩

theorem field_of_version (plain : IsField (literalVersion s.version)) (target : s.Targets v)
    (h : style.version s.version = .ok text) : style.Field s text := by
  rw [version_of_parse target.version] at h
  cases hstyle : style.versions with
  | literal =>
    rw [hstyle] at h
    cases h
    exact field_of_literal (.inl hstyle) plain
  | rpm =>
    rw [hstyle] at h
    obtain rfl := Version.encode_eq_ok h
    exact field_label target.version (Version.parse_wellFormed target.version) rfl

theorem field_of_bound (hc : s.operator = .compatible) (target : s.Targets v)
    (h : style.upperBound s = .ok text) : style.Field s text := by
  obtain ⟨up, hup⟩ := Specifier.exists_upperBound (target.compatible hc) (some s.render)
  have below := Specifier.bound_wellFormed hup
  rw [upperBound_of_targets target hup] at h
  cases hstyle : style.versions with
  | literal =>
    rw [hstyle] at h
    cases h
    exact field_of_literal (.inl hstyle) (Version.isField_render_bound below.release_ne_nil)
  | rpm =>
    rw [hstyle] at h
    cases h
    exact field_label target.version below rfl

theorem Writes.field (h : Specifier.parseAll text = .ok specifiers) (hs : s ∈ specifiers)
    {version bound : String} (texts : style.Writes s version bound) :
    style.Field s version ∧ (s.operator = .compatible → style.Field s bound) := by
  obtain ⟨hne, visible⟩ := Specifier.version_visible h hs
  have plain : IsField (literalVersion s.version) := isField_literalVersion hne visible
  by_cases hop : s.operator = .identical
  · constructor
    · rw [texts.identical hop]
      exact field_of_literal (.inr hop) plain
    · intro hc
      rw [hop] at hc
      cases hc
  · obtain ⟨v, target⟩ := (Specifier.readable_of_parseAll h hs).targets hop
    exact ⟨field_of_version plain target (texts.version hop),
      fun hc => field_of_bound hc target (texts.bound hc)⟩

end ClauseStyle

end DepClause
