import DepClause.Proofs.Traversal
import DepClause.Proofs.Version.WellFormed
import DepClause.Specifier.Containment

/-!
# Specifiers that were read

What `parse` promises of a specifier: its version text is a version unless it is compared as a text,
only `==` and `!=` carry a wildcard, and `~=` has a release whose last number can be dropped.
-/

namespace DepClause.Specifier

/-- The specifier compares with the version `v`. -/
structure Targets (s : Specifier) (v : Version) : Prop where
  version : Version.parse s.version = .ok v
  wildcard : s.wildcard = true → s.operator = .equal ∨ s.operator = .notEqual
  compatible : s.operator = .compatible → 2 ≤ v.release.length

theorem Targets.of_whole {op : Comparator} {text : String} {v : Version}
    (hv : Version.parse text = .ok v) (hop : op ≠ .compatible) : Targets ⟨op, text, false⟩ v := by
  constructor
  · exact hv
  · intro h
    cases h
  · intro h
    exact absurd h hop

theorem Targets.of_wildcard {text : String} {v : Version} (hv : Version.parse text = .ok v) :
    Targets ⟨.equal, text, true⟩ v := by
  constructor
  · exact hv
  · intro _
    exact .inl rfl
  · intro h
    cases h

theorem stripWildcard?_eq_some_iff {s front : List Char} :
    stripWildcard? s = some front ↔ s = front ++ ['.', '*'] := by
  unfold stripWildcard?
  split
  · next rest h =>
    rw [List.reverse_eq_iff] at h
    simp [h, eq_comm]
  · next h =>
    simp only [reduceCtorEq, false_iff]
    rintro rfl
    exact h front.reverse (by simp)

theorem upperBound_eq_ok_iff {v : Version} {input : Option String} {up : List Nat} :
    upperBound v input = .ok up ↔
      ∃ front n, v.release.dropLast = front ++ [n] ∧ up = front ++ [n + 1] := by
  unfold upperBound
  split
  · next h =>
    have hd : v.release.dropLast = [] := List.reverse_eq_nil_iff.1 h
    simp [hd]
  · next n ns h =>
    have hd : v.release.dropLast = ns.reverse ++ [n] := by
      rw [← List.reverse_reverse v.release.dropLast, h, List.reverse_cons]
    rw [hd]
    constructor
    · intro h
      cases h
      exact ⟨ns.reverse, n, rfl, rfl⟩
    · rintro ⟨front, m, hf, rfl⟩
      obtain ⟨rfl, hm⟩ := List.append_inj' hf rfl
      cases hm
      rfl

/-- A release of two numbers has an upper bound. -/
theorem exists_upperBound {v : Version} (h : 2 ≤ v.release.length) (input : Option String) :
    ∃ up, upperBound v input = .ok up := by
  have hne : v.release.dropLast ≠ [] := by
    intro hd
    have := congrArg List.length hd
    simp at this
    omega
  refine ⟨v.release.dropLast.dropLast ++ [v.release.dropLast.getLast hne + 1],
    upperBound_eq_ok_iff.2 ⟨_, _, ?_, rfl⟩⟩
  exact (List.dropLast_concat_getLast hne).symm

theorem two_le_length_of_upperBound {v : Version} {input : Option String} {up : List Nat}
    (h : upperBound v input = .ok up) : 2 ≤ v.release.length := by
  obtain ⟨front, n, hd, _⟩ := upperBound_eq_ok_iff.1 h
  have := congrArg List.length hd
  simp only [List.length_dropLast, List.length_append, List.length_singleton] at this
  omega

theorem bound_wellFormed {v : Version} {input : Option String} {up : List Nat}
    (hup : upperBound v input = .ok up) :
    ({ epoch := v.epoch, release := up } : Version).WellFormed where
  release_ne_nil := by
    obtain ⟨front, n, _, rfl⟩ := upperBound_eq_ok_iff.1 hup
    simp
  parts_ne_nil _ h := by cases h
  parts _ h := by cases h

/-- A specifier that was read answers for every version. -/
theorem contains_of_targets {s : Specifier} {c v : Version} {candidate : String}
    (hs : s.Targets v) (hop : s.operator ≠ .identical) (hc : Version.parse candidate = .ok c) :
    s.contains candidate = .ok (s.operator.holds s.wildcard c v) := by
  rw [contains, if_neg hop, hc, hs.version]
  by_cases ho : s.operator = .compatible
  · obtain ⟨up, hup⟩ := exists_upperBound (hs.compatible ho) (some s.render)
    simp only [ho, hup, bind, Except.bind, pure, Except.pure, if_true]
  · simp only [ho, bind, Except.bind, pure, Except.pure, if_false]

/-- What a text has behind the operator of a specifier. -/
def written (s : Specifier) : List Char :=
  s.version.toList ++ if s.wildcard then ['.', '*'] else []

/-- What every text promises that is read as a specifier. `===` compares texts and so knows no
wildcard. -/
structure Readable (s : Specifier) : Prop where
  bare : s.operator = .identical → s.wildcard = false
  targets : s.operator ≠ .identical → ∃ v, s.Targets v

theorem split?_of_parse {text : String} {s : Specifier} (h : parse text = .ok s) :
    split? (Text.trim text.toList) = some (s.operator, s.written) ∧ s.Readable := by
  unfold parse at h
  dsimp only at h
  split at h
  · cases h
  · next op behind hs =>
    split at h
    · next hid =>
      cases h
      exact ⟨by simp [hs, written], ⟨fun _ => rfl, fun hop => absurd hid hop⟩⟩
    · next hid =>
      split at h
      · cases h
      · next hwild =>
        obtain ⟨v, hv, h⟩ := bind_eq_ok_iff.1 h
        have hop2 : op = .compatible → 2 ≤ v.release.length := by
          intro hc
          rw [if_pos hc] at h
          obtain ⟨up, hup, _⟩ := bind_eq_ok_iff.1 h
          exact two_le_length_of_upperBound hup
        have hs' : s = ⟨op, String.ofList ((stripWildcard? behind).getD behind),
            (stripWildcard? behind).isSome⟩ := by
          split at h
          · obtain ⟨up, _, h⟩ := bind_eq_ok_iff.1 h
            cases h
            rfl
          · cases h
            rfl
        have whole : s.written = behind := by
          subst hs'
          cases found : stripWildcard? behind with
          | none => simp [written]
          | some front => simp [written, stripWildcard?_eq_some_iff.1 found]
        subst hs'
        refine ⟨by rw [hs, whole], ⟨fun h => absurd h hid, fun _ => ⟨v, hv, fun hw => ?_, hop2⟩⟩⟩
        simp only [not_and, Decidable.not_not] at hwild
        by_cases he : op = .equal
        · exact .inl he
        · exact .inr (hwild hw he)

theorem parse_targets {text : String} {s : Specifier} (h : parse text = .ok s)
    (hop : s.operator ≠ .identical) : ∃ v, s.Targets v :=
  (split?_of_parse h).2.targets hop

end DepClause.Specifier
