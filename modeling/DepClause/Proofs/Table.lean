import DepClause.Table

/-!
# Merging tables

A merged table holds, under every name, the last entry of the merged ones and else what was there
before. Merging the same entries again changes nothing, the order of the names included. Merged into
the table that it came from, a merged table comes out as it is.
-/

namespace DepClause.Table

variable {α : Type}

/-- The value of the last entry under a name. -/
def last? : Table α → String → Option α
  | [], _ => none
  | (n, v) :: rest, name => (last? rest name).or (if n = name then some v else none)

theorem get?_merge (t entries : Table α) (name : String) :
    (t.merge entries).get? name = (entries.last? name).or (t.get? name) := by
  induction entries generalizing t with
  | nil => rfl
  | cons entry rest ih =>
    obtain ⟨n, v⟩ := entry
    have step : (t.merge ((n, v) :: rest)).get? name
        = (last? rest name).or ((t.set n v).get? name) := ih (t.set n v)
    rw [step, get?_set, last?, Option.or_assoc]
    by_cases h : n = name
    · simp [h]
    · simp [h, Ne.symm h]

theorem mem_of_get? {t : Table α} {name : String} {value : α} (h : t.get? name = some value) :
    (name, value) ∈ t := by
  induction t with
  | nil => cases h
  | cons entry rest ih => grind [get?]

theorem set_set (t : Table α) (name : String) (v w : α) :
    (t.set name v).set name w = t.set name w := by
  induction t with
  | nil => simp [set]
  | cons entry rest ih => grind [set]

theorem mem_set {t : Table α} {name : String} {value : α} {entry : String × α}
    (h : entry ∈ t.set name value) : entry = (name, value) ∨ entry ∈ t := by
  induction t with
  | nil => exact .inl (List.mem_singleton.1 h)
  | cons first rest ih => grind [set]

/-- A name that is there keeps its place, so it does not matter when it is set. -/
theorem set_comm {t : Table α} {name other : String} (v w : α) (there : (t.get? name).isSome)
    (h : name ≠ other) : (t.set name v).set other w = (t.set other w).set name v := by
  induction t with
  | nil => simp [get?] at there
  | cons entry rest ih => grind [set, get?]

theorem set_eq_self {t : Table α} {name : String} {v : α} (h : t.get? name = some v) :
    t.set name v = t := by
  induction t with
  | nil => simp [get?] at h
  | cons entry rest ih => grind [set, get?]

/-- Setting a name that later entries set again has no effect if the name is there. -/
theorem merge_set {t : Table α} {name : String} (v : α) {entries : Table α}
    (there : (t.get? name).isSome) (again : (entries.last? name).isSome) :
    (t.set name v).merge entries = t.merge entries := by
  induction entries generalizing t with
  | nil => simp [last?] at again
  | cons entry rest ih =>
    obtain ⟨n, w⟩ := entry
    change ((t.set name v).set n w).merge rest = (t.set n w).merge rest
    by_cases same : n = name
    · rw [same, set_set]
    · have later : (last? rest name).isSome := by simpa [last?, same] using again
      rw [set_comm v w there (Ne.symm same)]
      refine ih ?_ later
      rw [get?_set, if_neg (Ne.symm same)]
      exact there

/-- A table that holds the last entry under every name of some entries has them merged already. -/
theorem merge_eq_self {t entries : Table α}
    (h : ∀ name v, entries.last? name = some v → t.get? name = some v) :
    t.merge entries = t := by
  induction entries with
  | nil => rfl
  | cons entry rest ih =>
    obtain ⟨n, v⟩ := entry
    have rest_merged : t.merge rest = t :=
      ih fun name w last => h name w (by simp [last?, last])
    change (t.set n v).merge rest = t
    cases last : last? rest n with
    | none =>
      rw [set_eq_self (h n v (by simp [last?, last])), rest_merged]
    | some w =>
      have there : t.get? n = some w := h n w (by simp [last?, last])
      rw [merge_set v (by simp [there]) (by simp [last]), rest_merged]

theorem merge_merge_self (t entries : Table α) :
    (t.merge entries).merge entries = t.merge entries :=
  merge_eq_self fun name v last => by rw [get?_merge, last, Option.some_or]

/-! ## The names of a table -/

def names (t : Table α) : List String := t.map Prod.fst

theorem names_cons (entry : String × α) (t : Table α) : names (entry :: t) = entry.1 :: t.names := rfl

theorem names_set (t : Table α) (name : String) (v : α) :
    (t.set name v).names = if name ∈ t.names then t.names else t.names ++ [name] := by
  induction t with
  | nil => rfl
  | cons entry rest ih =>
    obtain ⟨n, w⟩ := entry
    by_cases same : n = name
    · simp [set, names_cons, same]
    · rw [set, if_neg same, names_cons, ih]
      by_cases there : name ∈ names rest <;> simp [names_cons, there, Ne.symm same]

theorem nodup_names_set {t : Table α} (h : t.names.Nodup) (name : String) (v : α) :
    (t.set name v).names.Nodup := by
  rw [names_set]
  split
  · exact h
  · rename_i new
    refine List.nodup_append.2 ⟨h, by simp, fun n there m added same => ?_⟩
    exact new (List.mem_singleton.1 added ▸ same ▸ there)

theorem mem_names_merge {t entries : Table α} {name : String} (h : name ∈ (t.merge entries).names) :
    name ∈ t.names ∨ name ∈ entries.names := by
  induction entries generalizing t with
  | nil => exact .inl h
  | cons entry rest ih =>
    rw [names_cons, List.mem_cons]
    rcases ih h with first | later
    · rw [names_set] at first
      split at first
      · exact .inl first
      · exact (List.mem_append.1 first).imp_right fun new => .inl (List.mem_singleton.1 new)
    · exact .inr (.inr later)

theorem reserved_not_mem_kept (t : Table α) : reserved ∉ t.kept.names := by
  intro mem
  obtain ⟨entry, held, name⟩ := List.mem_map.1 mem
  have other := (List.mem_filter.1 held).2
  rw [name] at other
  exact absurd other (by decide)

theorem kept_of_not_mem {t : Table α} (h : reserved ∉ t.names) : t.kept = t := by
  apply List.filter_eq_self.2
  intro entry mem
  rw [bne_iff_ne]
  intro name
  exact h (name ▸ List.mem_map_of_mem mem)

/-- The names of a table keep their places in front of those that are merged in. -/
theorem names_merge {t : Table α} (h : t.names.Nodup) (entries : Table α) :
    t.names <+: (t.merge entries).names ∧ (t.merge entries).names.Nodup := by
  induction entries generalizing t with
  | nil => exact ⟨List.prefix_refl _, h⟩
  | cons entry rest ih =>
    obtain ⟨front, distinct⟩ := ih (nodup_names_set h entry.1 entry.2)
    refine ⟨List.IsPrefix.trans ?_ front, distinct⟩
    rw [names_set]
    split
    · exact List.prefix_refl _
    · exact List.prefix_append _ _

theorem set_of_not_mem {t : Table α} {name : String} (h : name ∉ t.names) (v : α) :
    t.set name v = t ++ [(name, v)] := by
  induction t with
  | nil => rfl
  | cons entry rest ih =>
    obtain ⟨other, later⟩ := not_or.1 fun mem => h (List.mem_cons.2 mem)
    rw [set, if_neg (Ne.symm other), ih later, List.cons_append]

/-- Entries under names that a table does not have are appended. -/
theorem merge_of_nodup {t entries : Table α} (h : (names (t ++ entries)).Nodup) :
    t.merge entries = t ++ entries := by
  induction entries generalizing t with
  | nil => exact (List.append_nil t).symm
  | cons entry rest ih =>
    have new : entry.1 ∉ t.names := by
      rw [names, List.map_append, List.map_cons, List.nodup_append] at h
      exact fun there => h.2.2 entry.1 there entry.1 List.mem_cons_self rfl
    have whole : t ++ entry :: rest = t ++ [entry] ++ rest := by simp
    change (t.set entry.1 entry.2).merge rest = _
    rw [set_of_not_mem new, whole]
    exact ih (whole ▸ h)

theorem merge_cons_of_not_mem {n : String} (v : α) (t : Table α) {entries : Table α}
    (h : n ∉ entries.names) : Table.merge ((n, v) :: t) entries = (n, v) :: t.merge entries := by
  induction entries generalizing t with
  | nil => rfl
  | cons entry rest ih =>
    obtain ⟨other, later⟩ := not_or.1 fun mem => h (List.mem_cons.2 mem)
    change (Table.set ((n, v) :: t) entry.1 entry.2).merge rest = _
    rw [set, if_neg other]
    exact ih (t.set entry.1 entry.2) later

/-- A table that starts with the names of another one replaces it. -/
theorem merge_of_names_prefix {t u : Table α} (front : t.names <+: u.names) (h : u.names.Nodup) :
    t.merge u = u := by
  induction t generalizing u with
  | nil => exact merge_of_nodup h
  | cons entry t ih =>
    obtain ⟨n, v⟩ := entry
    cases u with
    | nil => exact absurd front (by simp [names])
    | cons other u =>
      obtain ⟨m, w⟩ := other
      rw [names_cons, names_cons, List.cons_prefix_cons] at front
      obtain ⟨rfl, front⟩ := front
      obtain ⟨new, distinct⟩ := List.nodup_cons.1 h
      change (Table.set ((n, v) :: t) n w).merge u = _
      rw [set, if_pos rfl, merge_cons_of_not_mem w t new, ih front distinct]

theorem merge_merge_of_nodup {t : Table α} (h : t.names.Nodup) (entries : Table α) :
    t.merge (t.merge entries) = t.merge entries :=
  merge_of_names_prefix (names_merge h entries).1 (names_merge h entries).2

end DepClause.Table
