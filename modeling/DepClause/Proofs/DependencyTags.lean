import DepClause.DependencyTags
import DepClause.Proofs.Marker.Mention

/-!
# What is left for the optional tag

Both kinds of dependencies are converted from the same requirements, under different extras. What
both have is required, so what is left for the optional tag was added by hand or comes from a
requirement that asks for an extra.
-/

namespace DepClause

namespace Converter

variable {c : Converter} {extras : List String}

theorem convert_cons_eq_ok_iff {text : String} {texts clauses : List String} :
    (c.convert extras (text :: texts)).result = .ok clauses ↔
      ∃ clause rest, (c.convertOne text extras).result = .ok clause ∧
        (c.convert extras texts).result = .ok rest ∧ clauses = clause.toList ++ rest := by
  rw [convert, Logged.result_bind_eq_ok_iff]
  constructor
  · rintro ⟨clause, hc, h⟩
    obtain ⟨rest, hr, h⟩ := Logged.result_bind_eq_ok_iff.1 h
    cases h
    exact ⟨clause, rest, hc, hr, rfl⟩
  · rintro ⟨clause, rest, hc, hr, rfl⟩
    exact ⟨clause, hc, Logged.result_bind_eq_ok_iff.2 ⟨rest, hr, rfl⟩⟩

/-- A list is converted where each of its requirements is, into what is left of their clauses. -/
theorem convert_eq_ok_iff {texts clauses : List String} :
    (c.convert extras texts).result = .ok clauses ↔
      ∃ results, List.Forall₂ (fun text result => (c.convertOne text extras).result = .ok result)
        texts results ∧ clauses = results.reduceOption := by
  induction texts generalizing clauses with
  | nil =>
    constructor
    · rintro ⟨⟩
      exact ⟨[], .nil, rfl⟩
    · rintro ⟨_, ⟨⟩, rfl⟩
      rfl
  | cons text texts ih =>
    rw [convert_cons_eq_ok_iff]
    constructor
    · rintro ⟨result, rest, first, behind, rfl⟩
      obtain ⟨results, all, rfl⟩ := ih.1 behind
      exact ⟨result :: results, .cons first all, by cases result <;> rfl⟩
    · rintro ⟨_, all, rfl⟩
      cases all with
      | @cons _ result _ results first all =>
        exact ⟨result, results.reduceOption, first, ih.2 ⟨results, all, rfl⟩, by cases result <;> rfl⟩

theorem exists_of_convert {texts clauses : List String}
    (h : (c.convert extras texts).result = .ok clauses) :
    ∀ text ∈ texts, ∃ result, (c.convertOne text extras).result = .ok result := by
  obtain ⟨results, all, -⟩ := convert_eq_ok_iff.1 h
  intro text listed
  obtain ⟨result, -, converted⟩ := exists_ok_of_mapM (mapM_eq_ok_iff.2 all) listed
  exact ⟨result, converted⟩

/-- The clauses of a list are those of its requirements. -/
theorem mem_convert_iff {texts clauses : List String}
    (h : (c.convert extras texts).result = .ok clauses) {clause : String} :
    clause ∈ clauses ↔ ∃ text ∈ texts, (c.convertOne text extras).result = .ok (some clause) := by
  induction texts generalizing clauses with
  | nil =>
    cases h
    simp
  | cons text texts ih =>
    obtain ⟨first, rest, hf, hr, rfl⟩ := convert_cons_eq_ok_iff.1 h
    rw [List.mem_append, ih hr, List.exists_mem_cons_iff, hf]
    simp [Option.mem_toList]

end Converter

namespace TagPolicy

variable {p : TagPolicy} {c : Converter} {m : Metadata} {s : DependencySet}

/-- The parts of a collected set. -/
theorem exists_of_collect (h : (p.collect c m).result = .ok s) :
    ∃ converted interpreter suggested,
      (c.convert (Glob.select p.requiresExtras m.providesExtra) m.requiresDist).result =
          .ok converted ∧
        (c.convert (Glob.select p.suggestsExtras m.providesExtra) m.requiresDist).result =
          .ok suggested ∧
        s.requires = p.requires ++ converted ++ interpreter ∧
        s.optional = (p.suggests ++ suggested).filter fun clause =>
          !s.requires.contains clause := by
  obtain ⟨_, _, h⟩ := Logged.result_bind_eq_ok_iff.1 h
  obtain ⟨_, _, h⟩ := Logged.result_bind_eq_ok_iff.1 h
  obtain ⟨converted, hc, h⟩ := Logged.result_bind_eq_ok_iff.1 h
  obtain ⟨interpreter, _, h⟩ := Logged.result_bind_eq_ok_iff.1 h
  obtain ⟨suggested, hs, h⟩ := Logged.result_bind_eq_ok_iff.1 h
  cases h
  exact ⟨converted, interpreter, suggested, hc, hs, rfl, rfl⟩

/-- There are tag lines only where every requirement of the metadata is converted. -/
theorem exists_of_lines {lines : List String} (h : (p.lines c m).result = .ok lines) :
    (∀ text ∈ m.buildRequires, ∃ result, (c.convertOne text []).result = .ok result) ∧
      ∀ patterns ∈ [p.requiresExtras, p.suggestsExtras], ∀ text ∈ m.requiresDist,
        ∃ result, (c.convertOne text (Glob.select patterns m.providesExtra)).result =
          .ok result := by
  obtain ⟨_, collected, _⟩ := Logged.result_bind_eq_ok_iff.1 h
  obtain ⟨_, _, h⟩ := Logged.result_bind_eq_ok_iff.1 collected
  obtain ⟨_, built, _⟩ := Logged.result_bind_eq_ok_iff.1 h
  obtain ⟨_, _, _, required, suggested, _⟩ := exists_of_collect collected
  refine ⟨Converter.exists_of_convert built, ?_⟩
  intro patterns kind
  rcases List.mem_pair.1 kind with rfl | rfl
  · exact Converter.exists_of_convert required
  · exact Converter.exists_of_convert suggested

theorem mem_optional_iff {requires clauses : List String} {clause : String} :
    clause ∈ clauses.filter (fun clause => !requires.contains clause) ↔
      clause ∈ clauses ∧ clause ∉ requires := by
  simp

/-- **Optional tags are the rest that extras ask for.** No optional dependency is required. Those
that were added by hand and those that the suggested extras ask for are required or optional, and
the optional ones keep their order and their repetitions. An optional one that was not added by hand
is the clause of a requirement whose marker mentions `extra` and which has not this clause under the
required extras. -/
theorem optional_is_extra_rest (h : (p.collect c m).result = .ok s) :
    (∀ clause ∈ s.optional, clause ∉ s.requires) ∧
    (∃ suggested,
      (c.convert (Glob.select p.suggestsExtras m.providesExtra) m.requiresDist).result =
          .ok suggested ∧
        (∀ clause ∈ p.suggests ++ suggested, clause ∈ s.requires ∨ clause ∈ s.optional) ∧
        s.optional.Sublist (p.suggests ++ suggested) ∧
        ∀ clause, clause ∉ s.requires →
          s.optional.count clause = (p.suggests ++ suggested).count clause) ∧
    ∀ clause ∈ s.optional, clause ∈ p.suggests ∨
      ∃ text ∈ m.requiresDist, ∃ r marker, Requirement.parse text = .ok r ∧
        r.marker = some marker ∧ marker.Mentions "extra" ∧
        (c.convertOne text (Glob.select p.suggestsExtras m.providesExtra)).result =
          .ok (some clause) ∧
        (c.convertOne text (Glob.select p.requiresExtras m.providesExtra)).result ≠
          .ok (some clause) := by
  obtain ⟨converted, interpreter, suggested, hc, hs, requires, optional⟩ := exists_of_collect h
  refine ⟨?_, ⟨suggested, hs, ?_, ?_, ?_⟩, ?_⟩
  · intro clause hm
    rw [optional, mem_optional_iff] at hm
    exact hm.2
  · intro clause hm
    by_cases required : clause ∈ s.requires
    · exact .inl required
    · rw [optional, mem_optional_iff]
      exact .inr ⟨hm, required⟩
  · rw [optional]
    exact List.filter_sublist
  · intro clause required
    rw [optional]
    apply List.count_filter
    simp [required]
  · intro clause hm
    rw [optional, mem_optional_iff, List.mem_append] at hm
    obtain ⟨hm | hm, free⟩ := hm
    · exact .inl hm
    · obtain ⟨text, ht, converts⟩ := (Converter.mem_convert_iff hs).1 hm
      have differs : (c.convertOne text (Glob.select p.requiresExtras m.providesExtra)).result ≠
          .ok (some clause) := by
        intro same
        apply free
        rw [requires]
        have := (Converter.mem_convert_iff hc).2 ⟨text, ht, same⟩
        simp [this]
      -- under extras that are not asked for the clause would be required as well
      have asks : ∃ r marker, Requirement.parse text = .ok r ∧ r.marker = some marker ∧
          marker.Mentions "extra" := by
        by_contra unasked
        apply differs
        rw [Converter.convertOne_of_not_mentioned fun r marker hr hmark mentions =>
          unasked ⟨r, marker, hr, hmark, mentions⟩]
        exact converts
      obtain ⟨r, marker, hr, hmark, mentions⟩ := asks
      exact .inr ⟨text, ht, r, marker, hr, hmark, mentions, converts, differs⟩

/-- One requirement for everyone, and one behind an extra that is suggested but not required. -/
theorem optional_is_extra_rest_of_suggested :
    let p : TagPolicy := ⟨[], ["b"], [], ["*"], "Suggests", none, "python(abi)", {}⟩
    let c : Converter := ⟨[], [], "\x7bname\x7d", {}⟩
    let m : Metadata := { requiresDist := ["a", "c ; extra == 'x'"], providesExtra := ["x"] }
    (p.collect c m).result = .ok ⟨[], ["a"], ["b", "c"]⟩ ∧
      ∃ text ∈ m.requiresDist, ∃ r marker, Requirement.parse text = .ok r ∧
        r.marker = some marker ∧ marker.Mentions "extra" ∧
        (c.convertOne text (Glob.select p.suggestsExtras m.providesExtra)).result =
          .ok (some "c") := by
  intro p c m
  have collected : (p.collect c m).result = .ok ⟨[], ["a"], ["b", "c"]⟩ :=
    eq_ok_of_toOption (by decide +kernel)
  refine ⟨collected, ?_⟩
  rcases (optional_is_extra_rest collected).2.2 "c" (by decide) with byHand | extra
  · exact absurd byHand (by decide)
  · obtain ⟨text, ht, r, marker, hr, hm, mentions, converts, _⟩ := extra
    exact ⟨text, ht, r, marker, hr, hm, mentions, converts⟩

end TagPolicy

end DepClause
