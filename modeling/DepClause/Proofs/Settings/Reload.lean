import DepClause.Proofs.Settings.Holding

/-!
# Settings that are saved and read again

A layer that is written is read as itself, so checking a document twice is checking it once. What
the settings hold, given as a layer of its own over the defaults, leaves the settings as they are:
the two tables keep the names of the defaults in front. So settings that are saved are read again as
they were; and where a save stops on the way, the settings file is untouched.
-/

namespace DepClause

namespace SettingsLayer

/-! ## Written layers -/

theorem asTexts?_ofTexts (items : List String) : (Json.ofTexts items).asTexts? = some items := by
  change (items.map Json.text).mapM Json.asText? = some items
  induction items with
  | nil => rfl
  | cons s items ih => rw [List.map_cons, List.mapM_cons, ih]; rfl

theorem readTexts_ofTexts (key : String) (items : List String) :
    readTexts key (.ofTexts items) = .ok items := by
  have back := asTexts?_ofTexts items
  rw [Json.ofTexts] at back
  rw [Json.ofTexts, readTexts, back]
  exact fun _ => Json.noConfusion

theorem readStyle_text (key : String) (style : VersionStyle) :
    readStyle key (.text style.text) = .ok style := by
  cases style <;> rfl

theorem readLevel_name (key : String) (level : Log.Level) :
    readLevel key (.text level.name) = .ok level := by
  cases level <;> rfl

theorem readRule_toJson (key : String) (rule : CapabilityRule) :
    readRule key rule.toJson = .ok rule := by
  cases rule <;> rfl

/-- A table is read back if its entries are and it can hold each of them. -/
theorem readTable_object {α : Type} {read : String → Json → Except Failure α} {write : α → Json}
    (back : ∀ key a, read key (write a) = .ok a) {t : Table α} (held : Table.reserved ∉ t.names)
    (key : String) :
    readTable read key (.object (t.map fun (name, a) => (name, write a))) = .ok t := by
  refine bind_eq_ok_iff.2 ⟨t, ?_, congrArg Except.ok (Table.kept_of_not_mem held)⟩
  exact mapM_map_eq_ok fun entry _ => by simp only [back]; rfl

theorem readTextTable_textTableJson (key : String) {t : Table String}
    (held : Table.reserved ∉ t.names) : readTextTable key (textTableJson t) = .ok t := by
  have back (key s : String) : readText key (.text s) = .ok s := rfl
  exact readTable_object back held key

theorem readRules_ruleTableJson (key : String) {t : Table CapabilityRule}
    (held : Table.reserved ∉ t.names) : readRules key (ruleTableJson t) = .ok t :=
  readTable_object readRule_toJson held key

/-- No table of the layer has a name that it cannot hold. -/
structure Regular (l : SettingsLayer) : Prop where
  environment : ∀ t ∈ l.environment, Table.reserved ∉ t.names
  capabilityRules : ∀ t ∈ l.capabilityRules, Table.reserved ∉ t.names

theorem regular_empty : Regular {} := ⟨nofun, nofun⟩

theorem reserved_not_mem_readTable {α : Type} {read : String → Json → Except Failure α}
    {key : String} {v : Json} {t : Table α} (h : readTable read key v = .ok t) :
    Table.reserved ∉ t.names := by
  cases v with
  | object members =>
    obtain ⟨entries, -, held⟩ := bind_eq_ok_iff.1 h
    cases held
    exact Table.reserved_not_mem_kept entries
  | null | bool | number | text | array => cases h

theorem Regular.withMember {layer next : SettingsLayer} (regular : layer.Regular) {key : String}
    {v : Json} (h : layer.withMember key v = .ok next) : next.Regular := by
  unfold SettingsLayer.withMember at h
  split at h
  case h_14 => cases h
  all_goals
    obtain ⟨a, read, put⟩ := bind_eq_ok_iff.1 h
    cases put
  case h_1 =>
    refine ⟨?_, regular.capabilityRules⟩
    rintro _ ⟨⟩
    exact reserved_not_mem_readTable read
  case h_2 =>
    refine ⟨regular.environment, ?_⟩
    rintro _ ⟨⟩
    exact reserved_not_mem_readTable read
  all_goals exact ⟨regular.environment, regular.capabilityRules⟩

theorem Regular.withMembers {layer next : SettingsLayer} (regular : layer.Regular)
    {members : List (String × Json)} (h : layer.withMembers members = .ok next) :
    next.Regular := by
  induction members generalizing layer with
  | nil =>
    cases h
    exact regular
  | cons m rest ih =>
    obtain ⟨between, one, more⟩ := bind_eq_ok_iff.1 h
    exact ih (regular.withMember one) more

/-- A layer that is read has tables that hold all their entries. -/
theorem regular_of_ofJson {v : Json} {layer : SettingsLayer} (h : ofJson v = .ok layer) :
    layer.Regular := by
  cases v with
  | object members => exact regular_empty.withMembers h
  | null | bool | number | text | array => cases h

/-- A setting that a layer may give is read as it was written, and nothing is read if it was not
given. -/
theorem withMembers_given {α : Type} {key : String} {write : α → Json}
    (put : SettingsLayer → Option α → SettingsLayer)
    {layer : SettingsLayer} (given : Option α)
    (reads : ∀ a ∈ given, withMember layer key (write a) = .ok (put layer (some a)))
    (empty : put layer none = layer) (rest : List (String × Json)) :
    layer.withMembers (((given.map write).map fun v => (key, v)).toList ++ rest)
      = (put layer given).withMembers rest := by
  cases given with
  | none => rw [empty]; rfl
  | some a =>
    change layer.withMember key (write a) >>= _ = _
    rw [reads a rfl]
    rfl

/-- A layer that is written is read as itself: member by member, each into a layer that does not
give it yet. -/
theorem ofJson_toJson {l : SettingsLayer} (regular : l.Regular) : ofJson l.toJson = .ok l := by
  have whole : l.members = l.members ++ [] := (List.append_nil _).symm
  change withMembers {} l.members = .ok l
  rw [whole]
  simp only [members, List.append_assoc]
  rw [withMembers_given (fun layer v => { layer with environment := v })
    _ (fun t ht => by
      simp only [withMember, readTextTable_textTableJson _ (regular.environment t ht)]; rfl) rfl]
  dsimp only
  rw [withMembers_given (fun layer v => { layer with capabilityRules := v })
    _ (fun t ht => by
      simp only [withMember, readRules_ruleTableJson _ (regular.capabilityRules t ht)]; rfl) rfl]
  dsimp only
  rw [withMembers_given (fun layer v => { layer with packageTemplate := v })
    _ (fun _ _ => by simp only [withMember, readText]; rfl) rfl]
  dsimp only
  rw [withMembers_given (fun layer v => { layer with abiCapability := v })
    _ (fun _ _ => by simp only [withMember, readText]; rfl) rfl]
  dsimp only
  rw [withMembers_given (fun layer v => { layer with versionStyle := v })
    _ (fun _ _ => by simp only [withMember, readStyle_text]; rfl) rfl]
  dsimp only
  rw [withMembers_given (fun layer v => { layer with strictLocal := v })
    _ (fun _ _ => by simp only [withMember, readFlag]; rfl) rfl]
  dsimp only
  rw [withMembers_given (fun layer v => { layer with requires := v })
    _ (fun _ _ => by simp only [withMember, readTexts_ofTexts]; rfl) rfl]
  dsimp only
  rw [withMembers_given (fun layer v => { layer with suggests := v })
    _ (fun _ _ => by simp only [withMember, readTexts_ofTexts]; rfl) rfl]
  dsimp only
  rw [withMembers_given (fun layer v => { layer with requiresExtras := v })
    _ (fun _ _ => by simp only [withMember, readTexts_ofTexts]; rfl) rfl]
  dsimp only
  rw [withMembers_given (fun layer v => { layer with suggestsExtras := v })
    _ (fun _ _ => by simp only [withMember, readTexts_ofTexts]; rfl) rfl]
  dsimp only
  rw [withMembers_given (fun layer v => { layer with optionalTag := v })
    _ (fun _ _ => by simp only [withMember, readText]; rfl) rfl]
  dsimp only
  rw [withMembers_given (fun layer v => { layer with logLevel := v })
    _ (fun _ _ => by simp only [withMember, readLevel_name]; rfl) rfl]
  dsimp only
  rw [withMembers_given (fun layer v => { layer with pythonVersion := v })
    _ (fun _ _ => by simp only [withMember, readText]; rfl) rfl]
  dsimp only
  rfl

end SettingsLayer

namespace Settings

/-! ## Settings as a layer over the defaults -/

/-- No name stands twice in one of the two tables. -/
structure DistinctNames (s : Settings) : Prop where
  environment : s.environment.names.Nodup
  capabilityRules : s.capabilityRules.names.Nodup

theorem distinctNames_defaults : defaults.DistinctNames := ⟨by decide, by decide⟩

/-- Settings that come from others by a layer come from them by all that they hold, too. -/
theorem merge_asLayer_merge {s : Settings} (distinct : s.DistinctNames) (layer : SettingsLayer) :
    s.merge (s.merge layer).asLayer = s.merge layer := by
  have environment := Table.merge_merge_of_nodup distinct.environment (layer.environment.getD [])
  have rules := Table.merge_merge_of_nodup distinct.capabilityRules (layer.capabilityRules.getD [])
  have version : ((layer.pythonVersion.orElse fun _ => s.pythonVersion).orElse
      fun _ => s.pythonVersion) = layer.pythonVersion.orElse fun _ => s.pythonVersion := by
    cases layer.pythonVersion with
    | none => cases s.pythonVersion <;> rfl
    | some v => rfl
  simp only [merge, asLayer, Option.getD_some, environment, rules, version]

/-- Settings that come from the defaults by what a file gives have tables that hold all their
entries. -/
theorem regular_asLayer_merge {layer : SettingsLayer} (regular : layer.Regular) :
    (defaults.merge layer).asLayer.Regular := by
  have given {α : Type} {t : Table α} {held : Option (Table α)} (own : Table.reserved ∉ t.names)
      (regular : ∀ u ∈ held, Table.reserved ∉ u.names) :
      ∀ u ∈ some (t.merge (held.getD [])), Table.reserved ∉ u.names := by
    rintro _ ⟨⟩ mem
    rcases Table.mem_names_merge mem with first | later
    · exact own first
    · cases held with
      | none => cases later
      | some u => exact regular u rfl later
  exact ⟨given (by decide) regular.environment, given (by decide) regular.capabilityRules⟩

end Settings

namespace SettingsStore

open Disk DepClause.Path

variable {s : SettingsStore} {d e : Disk} {settings : Settings}

/-! ## The settings file -/

theorem current_eq_ok_iff : s.current d = .ok settings ↔
    ∃ layer, s.storedLayer d = .ok layer ∧ Settings.defaults.merge layer = settings :=
  map_eq_ok_iff

theorem storedLayer_eq_ok_iff (there : d.pathExists s.settingsPath = true)
    {layer : SettingsLayer} : s.storedLayer d = .ok layer ↔
      ∃ v, d.readDocument s.settingsPath = .ok v ∧ SettingsLayer.ofJson v = .ok layer := by
  rw [storedLayer, if_pos there, readLayer, bind_eq_ok_iff]
  simp only [mapError_eq_ok_iff]

theorem regular_of_storedLayer {layer : SettingsLayer} (h : s.storedLayer d = .ok layer) :
    layer.Regular := by
  by_cases there : d.pathExists s.settingsPath = true
  · obtain ⟨v, -, accepted⟩ := (storedLayer_eq_ok_iff there).1 h
    exact SettingsLayer.regular_of_ofJson accepted
  · rw [storedLayer, if_neg there] at h
    cases h
    exact SettingsLayer.regular_empty

/-- The stored settings depend on where the settings file is and on what the files hold. -/
theorem current_congr (place : e.locate s.settingsPath = d.locate s.settingsPath)
    (files : e.files = d.files) : s.current e = s.current d := by
  have exists_same : e.pathExists s.settingsPath = d.pathExists s.settingsPath := by
    rw [pathExists, pathExists, place]
  have document : e.readDocument s.settingsPath = d.readDocument s.settingsPath := by
    rw [readDocument, readDocument, Disk.read, Disk.read, place, files]
  rw [current, current, storedLayer, storedLayer, exists_same, readLayer, readLayer, document]

theorem grown_ensureDirectories (s : SettingsStore) (d : Disk) :
    Grown (fun l => d.files.get? l = none) d (s.ensureDirectories d).disk := by
  refine andThen_preserves (grown_free_makeDirectories d s.directory) fun e grown => ?_
  refine grown.trans ((grown_free_makeDirectories e s.logsPath).mono fun l free => ?_)
  rwa [← grown.files]

/-- An object that is written is what the stored settings come from. -/
theorem current_written {members : Table Json} {layer : SettingsLayer}
    (accepted : SettingsLayer.ofMembers members = .ok layer)
    (done : (s.writeDocument (.object members) d).result = .ok ()) :
    s.current (s.writeDocument (.object members) d).disk
      = .ok (Settings.defaults.merge layer) := by
  rcases writeDocument_cases s d members with ⟨fault, failed⟩ | ⟨-, holds⟩
  · rw [failed] at done
    cases done
  · exact (holds members rfl).current accepted

/-- Where the settings file is, a document can be written. -/
theorem writeDocument_done {l : String} (there : d.locate s.settingsPath = .file l) (v : Json) :
    (s.writeDocument v d).result = .ok () := by
  rw [writeDocument, write, there]
  rfl

/-! ## Saving -/

theorem exists_file_of_current (h : s.current d = .ok settings)
    (there : d.pathExists s.settingsPath = true) : ∃ l, d.locate s.settingsPath = .file l := by
  obtain ⟨layer, stored, -⟩ := current_eq_ok_iff.1 h
  obtain ⟨v, document, -⟩ := (storedLayer_eq_ok_iff there).1 stored
  obtain ⟨l, -, place, -⟩ := file_of_readDocument document
  exact ⟨l, place⟩

/-- A save that is done leaves the settings that were saved. -/
theorem current_save (h : s.current d = .ok settings)
    (done : (s.save d settings.toJson).result = .ok ()) :
    s.current (s.save d settings.toJson).disk = .ok settings := by
  obtain ⟨layer, stored, rfl⟩ := current_eq_ok_iff.1 h
  have regular := Settings.regular_asLayer_merge (regular_of_storedLayer stored)
  cases made : (s.ensureDirectories d).result with
  | error fault =>
    rw [save, Changed.andThen, made] at done
    cases done
  | ok _ =>
    simp only [save, Changed.andThen, made] at done ⊢
    have again := current_written (SettingsLayer.ofJson_toJson regular) done
    rwa [Settings.merge_asLayer_merge Settings.distinctNames_defaults] at again

/-- A save that stops on the way leaves the settings as they were. -/
theorem current_save_failed {l : String} {fault : Fault} {v : Json}
    (there : d.locate s.settingsPath = .file l) (failed : (s.save d v).result = .error fault) :
    s.current (s.save d v).disk = s.current d := by
  have grown := grown_ensureDirectories s d
  have still := locate_file_grown grown there
  cases made : (s.ensureDirectories d).result with
  | error fault =>
    simp only [save, Changed.andThen, made, Changed.failed]
    exact current_congr (still.trans there.symm) grown.files
  | ok _ =>
    simp only [save, Changed.andThen, made] at failed
    rw [writeDocument_done still] at failed
    cases failed

/-- Where the settings file is and nothing stands in the way of the log files, a save is done. -/
theorem save_done {k l m : String} (directory : d.locate s.directory = .directory k)
    (logs : d.locate s.logsPath = .directory m ∨ d.locate s.logsPath = .vacant m)
    (there : d.locate s.settingsPath = .file l) (v : Json) : (s.save d v).result = .ok () := by
  have made : (s.ensureDirectories d).result = .ok () := by
    simp only [ensureDirectories, makeDirectories_of_directory directory, Changed.andThen,
      Changed.done]
    rcases logs with found | free
    · rw [makeDirectories_of_directory found]
      rfl
    · rw [makeDirectories_of_vacant free]
      rfl
  simp only [save, Changed.andThen, made]
  exact writeDocument_done (locate_file_grown (grown_ensureDirectories s d) there) v

/-- **Checking twice is checking once, and saved settings are read again.** A document that gives a
layer gives it again once the layer is written. Settings that the store holds are read again after
they were saved, whenever there was a settings file or the save was done; and it is done where the
settings file is in its directory and nothing stands in the way of the log files. -/
theorem saved_settings_reload :
    (∀ raw layer, SettingsLayer.ofJson raw = .ok layer →
        SettingsLayer.ofJson layer.toJson = SettingsLayer.ofJson raw)
      ∧ ∀ (s : SettingsStore) d settings, s.current d = .ok settings →
        ((d.pathExists s.settingsPath = true ∨ (s.save d settings.toJson).result = .ok ()) →
          s.current (s.save d settings.toJson).disk = .ok settings)
        ∧ ∀ k l m, d.locate s.directory = .directory k → d.locate s.settingsPath = .file l →
          (d.locate s.logsPath = .directory m ∨ d.locate s.logsPath = .vacant m) →
          (s.save d settings.toJson).result = .ok () := by
  refine ⟨?_, fun s d settings h =>
    ⟨?_, fun k l m directory there logs => save_done directory logs there _⟩⟩
  · intro raw layer h
    rw [h]
    exact SettingsLayer.ofJson_toJson (SettingsLayer.regular_of_ofJson h)
  intro held
  cases saved : (s.save d settings.toJson).result with
  | ok _ => exact current_save h saved
  | error fault =>
    have there := held.resolve_right (by rw [saved]; exact nofun)
    obtain ⟨l, place⟩ := exists_file_of_current h there
    exact (current_save_failed place saved).trans h

/-- A disk with settings in `/home`, some of them not in the form that they are kept in. -/
def furnished : Disk where
  files := [("/home/settings.json", .document (.object
    [("suggests", .text " docs  tests "), ("pythonVersion", .text ">=3.8"),
     ("environment", .object [("extra_name", .text "x"), ("os_name", .text "nt")])]))]
  directories := ["", "/home"]

theorem saved_settings_reload_furnished :
    let s : SettingsStore := ⟨"/home"⟩
    let raw := Json.object [("suggests", .text " docs  tests "), ("pythonVersion", .text ">=3.8"),
      ("environment", .object [("extra_name", .text "x"), ("os_name", .text "nt")])]
    let layer : SettingsLayer :=
      { suggests := some ["docs", "tests"], pythonVersion := some ">=3.8",
        environment := some [("extra_name", "x"), ("os_name", "nt")] }
    let settings := Settings.defaults.merge layer
    (SettingsLayer.ofJson raw = .ok layer ∧ s.current furnished = .ok settings)
      ∧ SettingsLayer.ofJson layer.toJson = SettingsLayer.ofJson raw
      ∧ (s.save furnished settings.toJson).result = .ok ()
      ∧ s.current (s.save furnished settings.toJson).disk = .ok settings := by
  intro s raw layer settings
  have accepted : SettingsLayer.ofJson raw = .ok layer := by decide +kernel
  have path : s.settingsPath = "/home/settings.json" := by
    rw [settingsPath, Path.join, Path.startsWith_slash]
    decide
  have logs_path : s.logsPath = "/home/logs" := by
    rw [logsPath, Path.join, Path.startsWith_slash]
    decide
  have directory : furnished.locate s.directory = .directory "/home" := by
    rw [Disk.locate_eq]
    decide
  have there : furnished.locate s.settingsPath = .file "/home/settings.json" := by
    rw [path, Disk.locate_eq]
    decide
  have logs : furnished.locate s.logsPath = .vacant "/home/logs" := by
    rw [logs_path, Disk.locate_eq]
    decide
  have held : s.current furnished = .ok settings :=
    (holds_of_readDocument (readDocument_of_file there rfl rfl)).current accepted
  obtain ⟨twice, saved⟩ := saved_settings_reload
  obtain ⟨reload, done⟩ := saved s furnished settings held
  have saves := done _ _ _ directory there (.inr logs)
  exact ⟨⟨accepted, held⟩, twice raw layer accepted, saves, reload (.inr saves)⟩

end SettingsStore

end DepClause
