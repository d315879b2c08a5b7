import DepClause.Clause
import DepClause.Proofs.Label.VersionOrder
import DepClause.Proofs.Specifier.Printing

/-!
# Translating specifiers that were read

The clauses of a specifier hold the text of its version and, for `~=`, that of its upper bound. Both
are made from the version text by reading it again, which cannot fail where it was read before. What
is left to fail are strict labels, which refuse a local part that mixes digits with letters.
-/

namespace DepClause

/-- The clauses of an operator with the texts of its version and of its upper bound. -/
def Comparator.clauses (op : Comparator) (version bound : String) : List Clause :=
  match op with
  | .identical => [.holds .equal version]
  | .equal => [.holds .equal version]
  | .notEqual => [.apart version]
  | .less => [.holds .less version]
  | .atMost => [.holds .atMost version]
  | .greater => [.holds .greater version]
  | .atLeast => [.holds .atLeast version]
  | .compatible => [.holds .atLeast version, .holds .less bound]

namespace Specifier

/-- The specifier compares with a version of which a local part mixes digits with letters. -/
def HasMixedPart (s : Specifier) : Prop :=
  s.operator ≠ .identical ∧ ∃ v, Version.parse s.version = .ok v ∧ v.HasMixedPart

/-- Strict labels refuse the specifier for this local part, the first one of its version that is
mixed. -/
def RefusedFor (s : Specifier) (part : String) : Prop :=
  s.operator ≠ .identical ∧ ∃ v, Version.parse s.version = .ok v ∧ v.mixedPart? = some part

theorem hasMixedPart_iff {s : Specifier} : s.HasMixedPart ↔ ∃ part, s.RefusedFor part := by
  have found (v : Version) : v.HasMixedPart ↔ ∃ part, v.mixedPart? = some part := by
    rw [← Option.isSome_iff_exists, ← Option.ne_none_iff_isSome, Ne, v.mixedPart?_eq_none_iff,
      not_not]
  constructor
  · rintro ⟨hop, v, hv, mixed⟩
    obtain ⟨part, hp⟩ := (found v).1 mixed
    exact ⟨part, hop, v, hv, hp⟩
  · rintro ⟨part, hop, v, hv, hp⟩
    exact ⟨hop, v, hv, (found v).2 ⟨part, hp⟩⟩

end Specifier

namespace ClauseStyle

variable {style : ClauseStyle} {s : Specifier} {v : Version}

/-- The texts of the clauses that a specifier text asks of a named capability. -/
def translate (style : ClauseStyle) (name text : String) : Except Failure (List String) := do
  return (← style.allClauses (← Specifier.parseAll text)).map (Clause.render name)

/-- The clauses of the specifier hold `version` as the text of its version and, for `~=`, `bound` as
that of its upper bound. -/
structure Writes (style : ClauseStyle) (s : Specifier) (version bound : String) : Prop where
  identical : s.operator = .identical → version = literalVersion s.version
  version : s.operator ≠ .identical → style.version s.version = .ok version
  bound : s.operator = .compatible → style.upperBound s = .ok bound

theorem clauses_of_writes {version bound : String} (h : style.Writes s version bound) :
    style.clauses s = .ok (s.operator.clauses version bound) := by
  cases ho : s.operator with
  | identical =>
    rw [h.identical ho]
    simp only [clauses, ho]
    rfl
  | compatible =>
    simp only [clauses, ho, h.version (by simp [ho]), h.bound ho]
    rfl
  | _ =>
    simp only [clauses, ho, h.version (by simp [ho])]
    rfl

theorem clauses_of_version_error {failure : Failure} (hop : s.operator ≠ .identical)
    (h : style.version s.version = .error failure) : style.clauses s = .error failure := by
  cases ho : s.operator with
  | identical => exact absurd ho hop
  | _ =>
    simp only [clauses, ho, h]
    rfl

theorem version_of_parse {text : String} (hv : Version.parse text = .ok v) :
    style.version text = match style.versions with
      | .rpm => v.encode style.strictLocal text
      | .literal => .ok (literalVersion text) := by
  unfold version
  cases style.versions with
  | rpm => exact Version.encodeLiteral_eq hv
  | literal =>
    simp only [hv]
    rfl

theorem upperBound_of_targets (target : s.Targets v) {up : List Nat}
    (hup : Specifier.upperBound v (some s.render) = .ok up) :
    style.upperBound s = .ok (match style.versions with
      | .rpm => ({ epoch := v.epoch, release := up } : Version).label
      | .literal => ({ epoch := v.epoch, release := up } : Version).render) := by
  rw [upperBound, target.version]
  simp only [bind, Except.bind, hup]
  rfl

/-- The texts of a specifier that was read are there where that of its version is. -/
theorem exists_writes (read : s.Readable)
    (h : s.operator ≠ .identical → ∃ version, style.version s.version = .ok version) :
    ∃ version bound, style.Writes s version bound := by
  by_cases hop : s.operator = .identical
  · exact ⟨literalVersion s.version, "", fun _ => rfl, absurd hop, by simp [hop]⟩
  · obtain ⟨version, hw⟩ := h hop
    obtain ⟨v, target⟩ := read.targets hop
    by_cases hc : s.operator = .compatible
    · obtain ⟨up, hup⟩ := Specifier.exists_upperBound (target.compatible hc) (some s.render)
      exact ⟨version, _, (absurd · hop), fun _ => hw, fun _ => upperBound_of_targets target hup⟩
    · exact ⟨version, "", (absurd · hop), fun _ => hw, (absurd · hc)⟩

theorem writes_or_refused (read : s.Readable) :
    (∃ version bound, style.Writes s version bound) ∨
      s.operator ≠ .identical ∧ ∃ failure, style.version s.version = .error failure := by
  by_cases hop : s.operator = .identical
  · exact .inl (exists_writes read (absurd hop))
  · cases hw : style.version s.version with
    | ok version => exact .inl (exists_writes read fun _ => ⟨version, hw⟩)
    | error failure => exact .inr ⟨hop, failure, rfl⟩

/-- The text of a version is missing only where strict labels refuse it. -/
theorem version_eq_error_iff {text : String} {failure : Failure}
    (hv : Version.parse text = .ok v) :
    style.version text = .error failure ↔ style.versions = .rpm ∧ style.strictLocal = true ∧
      ∃ part, v.mixedPart? = some part ∧ failure = .mixedLocal text part := by
  rw [version_of_parse hv]
  cases style.versions with
  | literal => simp
  | rpm =>
    cases style.strictLocal with
    | false => simp [Version.encode]
    | true => simp [Version.encode_strict_error_iff]

/-- The clauses of a specifier that was read are missing only where strict labels refuse it. -/
theorem clauses_eq_error_iff {failure : Failure} (read : s.Readable) :
    style.clauses s = .error failure ↔ style.versions = .rpm ∧ style.strictLocal = true ∧
      ∃ part, s.RefusedFor part ∧ failure = .mixedLocal s.version part := by
  constructor
  · intro h
    rcases writes_or_refused read with ⟨version, bound, texts⟩ | ⟨hop, e, hw⟩
    · rw [clauses_of_writes texts] at h
      cases h
    · rw [clauses_of_version_error hop hw] at h
      cases h
      obtain ⟨v, target⟩ := read.targets hop
      obtain ⟨hs, hl, part, hp, rfl⟩ := (version_eq_error_iff target.version).1 hw
      exact ⟨hs, hl, part, ⟨hop, v, target.version, hp⟩, rfl⟩
  · rintro ⟨hs, hl, part, ⟨hop, v, hv, hp⟩, rfl⟩
    exact clauses_of_version_error hop ((version_eq_error_iff hv).2 ⟨hs, hl, part, hp, rfl⟩)

section
variable {text : String} {specifiers : List Specifier}

theorem translate_eq (h : Specifier.parseAll text = .ok specifiers) (name : String) :
    style.translate name text =
      (specifiers.mapM style.clauses).map fun css => css.flatten.map (Clause.render name) := by
  simp only [translate, h, allClauses, bind, Except.bind]
  cases specifiers.mapM style.clauses <;> rfl

/-- A text that was read is refused only by strict labels, and because of the first specifier that
has a mixed part. -/
theorem translate_eq_error_iff (h : Specifier.parseAll text = .ok specifiers) {name : String}
    {failure : Failure} :
    style.translate name text = .error failure ↔
      style.versions = .rpm ∧ style.strictLocal = true ∧ ∃ front s behind part,
        specifiers = front ++ s :: behind ∧ (∀ t ∈ front, ¬t.HasMixedPart) ∧
        s.RefusedFor part ∧ failure = .mixedLocal s.version part := by
  have steps : style.translate name text = .error failure ↔
      specifiers.mapM style.clauses = .error failure := by
    rw [translate_eq h]
    cases specifiers.mapM style.clauses <;> simp [Except.map]
  have read : ∀ s ∈ specifiers, s.Readable := fun s hs => Specifier.readable_of_parseAll h hs
  rw [steps, mapM_eq_error_iff]
  constructor
  · rintro ⟨front, s, behind, rfl, before, hs⟩
    obtain ⟨rpm, strict, part, refused, rfl⟩ := (clauses_eq_error_iff (read s (by simp))).1 hs
    refine ⟨rpm, strict, front, s, behind, part, rfl, fun t ht mixed => ?_, refused, rfl⟩
    obtain ⟨p, hp⟩ := Specifier.hasMixedPart_iff.1 mixed
    obtain ⟨cs, hcs⟩ := before t ht
    rw [(clauses_eq_error_iff (read t (by simp [ht]))).2 ⟨rpm, strict, p, hp, rfl⟩] at hcs
    cases hcs
  · rintro ⟨rpm, strict, front, s, behind, part, rfl, before, refused, rfl⟩
    refine ⟨front, s, behind, rfl, fun t ht => ?_, ?_⟩
    · cases ht' : style.clauses t with
      | ok cs => exact ⟨cs, rfl⟩
      | error e =>
        obtain ⟨_, _, p, hp, _⟩ := (clauses_eq_error_iff (read t (by simp [ht]))).1 ht'
        exact absurd (Specifier.hasMixedPart_iff.2 ⟨p, hp⟩) (before t ht)
    · exact (clauses_eq_error_iff (read s (by simp))).2 ⟨rpm, strict, part, refused, rfl⟩

theorem exists_clauses_of_translate {name : String} {texts : List String}
    (h : Specifier.parseAll text = .ok specifiers) (ht : style.translate name text = .ok texts) :
    ∃ css, specifiers.mapM style.clauses = .ok css ∧
      texts = css.flatten.map (Clause.render name) := by
  rw [translate_eq h] at ht
  cases hm : specifiers.mapM style.clauses with
  | error e =>
    rw [hm] at ht
    cases ht
  | ok css =>
    rw [hm] at ht
    cases ht
    exact ⟨css, rfl, rfl⟩

/-- **What was read can be translated.** The specifiers of a text have clauses with versions as they
were written. With labels they have them too, unless strict labels refuse a mixed part: the failure
names the first specifier that has one. And each of them contains a version or does not. -/
theorem read_specifiers_translate (h : Specifier.parseAll text = .ok specifiers) (name : String)
    (strict : Bool) :
    (∃ texts, translate ⟨.literal, strict⟩ name text = .ok texts) ∧
    ((∃ failure, translate ⟨.rpm, strict⟩ name text = .error failure) ↔
      strict = true ∧ ∃ s ∈ specifiers, s.HasMixedPart) ∧
    (∀ failure, translate ⟨.rpm, strict⟩ name text = .error failure →
      ∃ front s behind part, specifiers = front ++ s :: behind ∧
        (∀ t ∈ front, ¬t.HasMixedPart) ∧ s.RefusedFor part ∧
        failure = .mixedLocal s.version part) ∧
    ∀ s ∈ specifiers, ∀ candidate, Version.isVersion candidate = true →
      ∃ b, s.contains candidate = .ok b := by
  refine ⟨?_, ⟨?_, ?_⟩, ?_, ?_⟩
  · cases ht : translate ⟨.literal, strict⟩ name text with
    | ok texts => exact ⟨texts, rfl⟩
    | error failure =>
      obtain ⟨rpm, _⟩ := (translate_eq_error_iff h).1 ht
      cases rpm
  · rintro ⟨failure, ht⟩
    obtain ⟨_, isStrict, front, s, behind, part, rfl, _, refused, _⟩ :=
      (translate_eq_error_iff h).1 ht
    exact ⟨isStrict, s, by simp, Specifier.hasMixedPart_iff.2 ⟨part, refused⟩⟩
  · rintro ⟨rfl, s, hs, mixed⟩
    cases ht : translate ⟨.rpm, true⟩ name text with
    | error failure => exact ⟨failure, rfl⟩
    | ok texts =>
      obtain ⟨css, hcss, _⟩ := exists_clauses_of_translate h ht
      obtain ⟨cs, _, hcs⟩ := exists_ok_of_mapM hcss hs
      obtain ⟨part, refused⟩ := Specifier.hasMixedPart_iff.1 mixed
      rw [(clauses_eq_error_iff (Specifier.readable_of_parseAll h hs)).2 ⟨rfl, rfl, part, refused, rfl⟩]
        at hcs
      cases hcs
  · intro failure ht
    exact ((translate_eq_error_iff h).1 ht).2.2
  · intro s hs candidate hc
    by_cases hop : s.operator = .identical
    · rw [Specifier.contains, if_pos hop]
      exact ⟨_, rfl⟩
    · obtain ⟨v, target⟩ := (Specifier.readable_of_parseAll h hs).targets hop
      obtain ⟨c, hc⟩ := Version.exists_parse hc
      exact ⟨_, Specifier.contains_of_targets target hop hc⟩

/-- Strict labels pass over what is compared as a text and stop at the mixed part of a wildcard. -/
theorem read_specifiers_translate_of_mixed :
    Specifier.parseAll "===1.0+a1, ~=1.4.2, !=1.0+a.b2c.*, ==2+d3" = .ok
        [⟨.identical, "1.0+a1", false⟩, ⟨.compatible, "1.4.2", false⟩,
          ⟨.notEqual, "1.0+a.b2c", true⟩, ⟨.equal, "2+d3", false⟩] ∧
      translate ⟨.rpm, true⟩ "p" "===1.0+a1, ~=1.4.2, !=1.0+a.b2c.*, ==2+d3" =
        .error (.mixedLocal "1.0+a.b2c" "b2c") ∧
      (∃ texts, translate ⟨.rpm, false⟩ "p" "===1.0+a1, ~=1.4.2, !=1.0+a.b2c.*, ==2+d3" =
        .ok texts) ∧
      ∃ b, (⟨.compatible, "1.4.2", false⟩ : Specifier).contains "1.5rc1" = .ok b := by
  have read : Specifier.parseAll "===1.0+a1, ~=1.4.2, !=1.0+a.b2c.*, ==2+d3" = .ok
      [⟨.identical, "1.0+a1", false⟩, ⟨.compatible, "1.4.2", false⟩,
        ⟨.notEqual, "1.0+a.b2c", true⟩, ⟨.equal, "2+d3", false⟩] := by cbv
  refine ⟨read, by cbv, ?_, ?_⟩
  · have fails := (read_specifiers_translate read "p" false).2.1
    cases ht : translate ⟨.rpm, false⟩ "p" "===1.0+a1, ~=1.4.2, !=1.0+a.b2c.*, ==2+d3" with
    | ok texts => exact ⟨texts, rfl⟩
    | error failure => exact absurd (fails.1 ⟨failure, ht⟩).1 (by decide)
  · exact (read_specifiers_translate read "p" true).2.2.2 _ (by simp) "1.5rc1" (by cbv)

end

end ClauseStyle

end DepClause
