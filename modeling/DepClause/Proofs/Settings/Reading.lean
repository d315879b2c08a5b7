import DepClause.Proofs.Table
import DepClause.Proofs.Traversal
import DepClause.Settings.Document

/-!
# Reading settings again

A member of a settings object is read on its own, whatever was read before it, and it is read as
the same setting after it has been written: only numbers are lost there, and no setting holds one.
So an object whose members were checked one by one is a layer.
-/

namespace DepClause

namespace Json

theorem storedItems_eq_map (items : List Json) : storedItems items = items.map stored := by
  induction items with
  | nil => rfl
  | cons v rest ih => rw [storedItems, ih, List.map_cons]

mutual

theorem stored_stored : (v : Json) → v.stored.stored = v.stored
  | .null | .bool _ | .text _ => rfl
  | .number n => by cases n <;> rfl
  | .array items => by simp only [stored, storedItems_storedItems items]
  | .object members => by simp only [stored, storedMembers_storedMembers members]

theorem storedItems_storedItems : (items : List Json) →
    storedItems (storedItems items) = storedItems items
  | [] => rfl
  | v :: rest => by simp only [storedItems, stored_stored v, storedItems_storedItems rest]

theorem storedMembers_storedMembers : (members : List (String × Json)) →
    storedMembers (storedMembers members) = storedMembers members
  | [] => rfl
  | (name, v) :: rest => by
    simp only [storedMembers, stored_stored v, storedMembers_storedMembers rest]

end

theorem storedMembers_set (members : Table Json) (name : String) (v : Json) :
    storedMembers (Table.set members name v) = Table.set (storedMembers members) name v.stored := by
  induction members with
  | nil => rfl
  | cons m rest ih =>
    obtain ⟨n, w⟩ := m
    by_cases same : n = name <;> simp [Table.set, storedMembers, same, ih]

theorem get?_storedMembers (members : Table Json) (name : String) :
    Table.get? (storedMembers members) name = (Table.get? members name).map stored := by
  induction members with
  | nil => rfl
  | cons m rest ih =>
    obtain ⟨n, w⟩ := m
    by_cases same : n = name <;> simp [Table.get?, storedMembers, same, ih]

theorem member?_stored (v : Json) (name : String) :
    v.stored.member? name = (v.member? name).map stored := by
  cases v with
  | object members => exact get?_storedMembers members name
  | number n => cases n <;> rfl
  | null | bool | text | array => rfl

end Json

namespace SettingsLayer

/-! ## Readers -/

/-- What a reader accepts it reads again as the same after it has been written. -/
def ReadsBack {α : Type} (read : Json → Except Failure α) : Prop :=
  ∀ v a, read v = .ok a → read v.stored = .ok a

theorem readsBack_text (key : String) : ReadsBack (readText key) := by
  intro v s h
  cases v with
  | text t => exact h
  | null | bool | number | array | object => cases h

theorem readsBack_flag (key : String) : ReadsBack (readFlag key) := by
  intro v b h
  cases v with
  | bool c => exact h
  | null | text | number | array | object => cases h

theorem readsBack_style (key : String) : ReadsBack (readStyle key) := by
  intro v style h
  cases v with
  | text t => exact h
  | null | bool | number | array | object => cases h

theorem readsBack_level (key : String) : ReadsBack (readLevel key) := by
  intro v level h
  cases v with
  | text t => exact h
  | null | bool | number | array | object => cases h

theorem eq_of_mapM_asText? {items : List Json} {texts : List String}
    (h : items.mapM Json.asText? = some texts) : items = texts.map .text := by
  induction items generalizing texts with
  | nil =>
    cases h
    rfl
  | cons v rest ih =>
    rw [List.mapM_cons, Option.bind_eq_bind, Option.bind_eq_some_iff] at h
    obtain ⟨s, hs, h⟩ := h
    rw [Option.bind_eq_bind, Option.bind_eq_some_iff] at h
    obtain ⟨more, hmore, eq⟩ := h
    cases eq
    rw [List.map_cons, ← ih hmore]
    cases v with
    | text t =>
      cases hs
      rfl
    | null | bool | number | array | object => cases hs

theorem readsBack_texts (key : String) : ReadsBack (readTexts key) := by
  intro v texts h
  cases v with
  | text t => exact h
  | array items =>
    simp only [readTexts, Json.asTexts?, Json.stored, Json.storedItems_eq_map] at h ⊢
    cases read : items.mapM Json.asText? with
    | none =>
      rw [read] at h
      cases h
    | some all =>
      have same : items.map Json.stored = items := by
        rw [eq_of_mapM_asText? read, List.map_map]
        rfl
      rw [same]
      exact h
  | null | bool | number | object => cases h

/-- A table is read again as the same if its entries are. -/
theorem readsBack_table {α : Type} {read : String → Json → Except Failure α}
    (back : ∀ key, ReadsBack (read key)) (key : String) : ReadsBack (readTable read key) := by
  have entries {members : List (String × Json)} {t : Table α}
      (h : members.mapM (fun m => do return (m.1, ← read (key ++ "." ++ m.1) m.2)) = .ok t) :
      (Json.storedMembers members).mapM
        (fun m => do return (m.1, ← read (key ++ "." ++ m.1) m.2)) = .ok t := by
    induction members generalizing t with
    | nil => exact h
    | cons m rest ih =>
      obtain ⟨name, v⟩ := m
      obtain ⟨entry, table, hv, hrest, rfl⟩ := mapM_cons_eq_ok_iff.1 h
      obtain ⟨a, ha, eq⟩ := bind_eq_ok_iff.1 hv
      refine mapM_cons_eq_ok_iff.2 ⟨entry, table, ?_, ih hrest, rfl⟩
      exact bind_eq_ok_iff.2 ⟨a, back _ v a ha, eq⟩
  intro v t h
  cases v with
  | object members =>
    obtain ⟨table, all, held⟩ := bind_eq_ok_iff.1 h
    exact bind_eq_ok_iff.2 ⟨table, entries all, held⟩
  | null | bool | number | text | array => cases h

theorem readsBack_textTable (key : String) : ReadsBack (readTextTable key) :=
  readsBack_table readsBack_text key

theorem readsBack_rule (key : String) : ReadsBack (readRule key) := by
  intro v rule h
  have part {name : String} {make : String → CapabilityRule}
      (h : (readText (key ++ "." ++ name) ((v.member? name).getD .null)).map make = .ok rule) :
      (readText (key ++ "." ++ name) ((v.stored.member? name).getD .null)).map make = .ok rule := by
    have member : (v.stored.member? name).getD .null = ((v.member? name).getD .null).stored := by
      rw [Json.member?_stored]
      cases v.member? name <;> rfl
    rw [member]
    cases text : readText (key ++ "." ++ name) ((v.member? name).getD .null) with
    | error failure =>
      rw [text] at h
      cases h
    | ok s =>
      rw [text] at h
      rw [readsBack_text _ _ _ text]
      exact h
  cases v with
  | object members =>
    have kind := Json.member?_stored (.object members) "kind"
    simp only [readRule] at h
    split at h
    · rename_i equality
      rw [equality] at kind
      simp only [readRule, Json.stored, Option.map_some] at kind ⊢
      rw [kind]
      exact part h
    · rename_i ordered
      rw [ordered] at kind
      simp only [readRule, Json.stored, Option.map_some] at kind ⊢
      rw [kind]
      exact part h
    · cases h
  | null | bool | number | text | array => cases h

theorem readsBack_rules (key : String) : ReadsBack (readRules key) :=
  readsBack_table readsBack_rule key

/-! ## Members -/

/-- The check of one member takes no notice of what was read before it. -/
theorem withMember_cases (key : String) (v : Json) :
    (∃ put : SettingsLayer → SettingsLayer, ∀ layer : SettingsLayer,
        layer.withMember key v = .ok (put layer))
      ∨ ∃ failure, ∀ layer : SettingsLayer, layer.withMember key v = .error failure := by
  have one {α : Type} (read : Except Failure α) (put : SettingsLayer → α → SettingsLayer) :
      (∃ put' : SettingsLayer → SettingsLayer, ∀ layer : SettingsLayer,
          (do return put layer (← read)) = Except.ok (put' layer))
        ∨ ∃ failure, ∀ layer : SettingsLayer,
          (do return put layer (← read)) = Except.error failure := by
    cases read with
    | ok a => exact .inl ⟨fun layer => put layer a, fun _ => rfl⟩
    | error failure => exact .inr ⟨failure, fun _ => rfl⟩
  unfold withMember
  split
  case h_14 => exact .inr ⟨_, fun _ => rfl⟩
  all_goals exact one _ _

theorem exists_put {layer next : SettingsLayer} {key : String} {v : Json}
    (h : layer.withMember key v = .ok next) :
    ∃ put : SettingsLayer → SettingsLayer, ∀ layer : SettingsLayer,
      layer.withMember key v = .ok (put layer) := by
  rcases withMember_cases key v with accepted | ⟨failure, refused⟩
  · exact accepted
  · rw [refused layer] at h
    cases h

theorem withMember_stored {layer layer' : SettingsLayer} {key : String} {v : Json}
    (h : layer.withMember key v = .ok layer') : layer.withMember key v.stored = .ok layer' := by
  have one {α : Type} {read : Json → Except Failure α} (back : ReadsBack read)
      {put : α → SettingsLayer} (h : (do return put (← read v)) = Except.ok layer') :
      (do return put (← read v.stored)) = Except.ok layer' := by
    obtain ⟨a, ha, eq⟩ := bind_eq_ok_iff.1 h
    exact bind_eq_ok_iff.2 ⟨a, back v a ha, eq⟩
  unfold withMember at h ⊢
  split at h
  case h_1 => exact one (readsBack_textTable _) h
  case h_2 => exact one (readsBack_rules _) h
  case h_5 => exact one (readsBack_style _) h
  case h_6 => exact one (readsBack_flag _) h
  case h_13 => exact one (readsBack_level _) h
  case h_14 => cases h
  case h_7 | h_8 | h_9 | h_10 => exact one (readsBack_texts _) h
  all_goals exact one (readsBack_text _) h

/-- The layer that members give over another one. -/
def withMembers (layer : SettingsLayer) (members : List (String × Json)) :
    Except Failure SettingsLayer :=
  members.foldlM (fun layer (key, v) => layer.withMember key v) layer

theorem withMembers_cons (layer : SettingsLayer) (m : String × Json) (rest : List (String × Json)) :
    layer.withMembers (m :: rest)
      = layer.withMember m.1 m.2 >>= fun next => next.withMembers rest := rfl

/-- A member that passes its check. -/
def Accepts (key : String) (v : Json) : Prop := ∃ layer, ofMembers [(key, v)] = .ok layer

theorem accepts_iff {key : String} {v : Json} :
    Accepts key v ↔ ∃ put : SettingsLayer → SettingsLayer, ∀ layer : SettingsLayer,
      layer.withMember key v = .ok (put layer) := by
  constructor
  · rintro ⟨layer, h⟩
    obtain ⟨next, one, -⟩ := bind_eq_ok_iff.1 h
    exact exists_put one
  · rintro ⟨put, accepted⟩
    exact ⟨put {}, bind_eq_ok_iff.2 ⟨put {}, accepted {}, rfl⟩⟩

/-- Members give a layer if each of them passes its check. -/
theorem exists_withMembers_iff (layer : SettingsLayer) (members : List (String × Json)) :
    (∃ next, layer.withMembers members = .ok next) ↔ ∀ m ∈ members, Accepts m.1 m.2 := by
  induction members generalizing layer with
  | nil => exact ⟨fun _ m hm => absurd hm List.not_mem_nil, fun _ => ⟨layer, rfl⟩⟩
  | cons m rest ih =>
    rw [List.forall_mem_cons, withMembers_cons]
    constructor
    · rintro ⟨last, h⟩
      obtain ⟨next, one, more⟩ := bind_eq_ok_iff.1 h
      exact ⟨accepts_iff.2 (exists_put one), (ih next).1 ⟨last, more⟩⟩
    · rintro ⟨one, more⟩
      obtain ⟨put, accepted⟩ := accepts_iff.1 one
      obtain ⟨last, h⟩ := (ih (put layer)).2 more
      exact ⟨last, bind_eq_ok_iff.2 ⟨put layer, accepted layer, h⟩⟩

theorem withMembers_storedMembers {layer last : SettingsLayer} {members : List (String × Json)}
    (h : layer.withMembers members = .ok last) :
    layer.withMembers (Json.storedMembers members) = .ok last := by
  induction members generalizing layer with
  | nil => exact h
  | cons m rest ih =>
    rw [withMembers_cons] at h
    obtain ⟨next, one, more⟩ := bind_eq_ok_iff.1 h
    exact bind_eq_ok_iff.2 ⟨next, withMember_stored one, ih more⟩

/-- An object that gives a layer gives the same one after it has been written. -/
theorem ofMembers_storedMembers {members : List (String × Json)} {layer : SettingsLayer}
    (h : ofMembers members = .ok layer) : ofMembers (Json.storedMembers members) = .ok layer :=
  withMembers_storedMembers h

/-- An object that gives a layer still gives one with an accepted member set in it. -/
theorem exists_ofMembers_set {members : Table Json} {key : String} {v : Json}
    (all : ∃ layer, ofMembers members = .ok layer) (one : Accepts key v) :
    ∃ layer, ofMembers (Table.set members key v) = .ok layer := by
  refine (exists_withMembers_iff {} _).2 fun m hm => ?_
  rcases Table.mem_set hm with rfl | old
  · exact one
  · exact (exists_withMembers_iff {} members).1 all m old

end SettingsLayer

end DepClause
