import DepClause.Proofs.Command.Setup

/-!
# Resetting the settings

A reset writes the settings file anew and never reads it. The step before every command does read
it, for the log threshold, unless the threshold is given: so settings that cannot be read stop every
command, the reset among them, and with the threshold given a reset leaves the defaults whatever the
settings file holds.
-/

namespace DepClause

/-- Contents that hold settings: a document with a layer. -/
def Contents.GiveSettings (contents : Contents) : Prop :=
  ∃ v layer, contents.toJson = .ok v ∧ SettingsLayer.ofJson v = .ok layer

namespace SettingsStore

open Disk DepClause.Path

variable {s : SettingsStore} {d : Disk} {l : String} {contents : Contents}

/-- Whether there are settings is a matter of the settings file, where there is one. -/
theorem exists_current_iff (there : d.locate s.settingsPath = .file l)
    (file : d.files.get? l = some contents) :
    (∃ settings, s.current d = .ok settings) ↔ contents.GiveSettings := by
  have is_there : d.pathExists s.settingsPath = true := by rw [pathExists, there]
  constructor
  · rintro ⟨settings, h⟩
    obtain ⟨layer, stored, -⟩ := current_eq_ok_iff.1 h
    obtain ⟨v, document, accepted⟩ := (storedLayer_eq_ok_iff is_there).1 stored
    obtain ⟨m, held, place, same, value⟩ := file_of_readDocument document
    rw [there] at place
    cases place
    rw [file] at same
    cases same
    exact ⟨v, layer, value, accepted⟩
  · rintro ⟨v, layer, value, accepted⟩
    have stored := (storedLayer_eq_ok_iff is_there).2
      ⟨v, readDocument_of_file there file value, accepted⟩
    exact ⟨_, current_eq_ok_iff.2 ⟨layer, stored, rfl⟩⟩

/-- Where the settings file is in its directory, a reset leaves the defaults. -/
theorem reset_of_file {k : String} (directory : d.locate s.directory = .directory k)
    (there : d.locate s.settingsPath = .file l) :
    (s.reset d).result = .ok () ∧ s.current (s.reset d).disk = .ok Settings.defaults := by
  have ensured : s.reset d = s.writeDocument (.object []) d := by
    rw [reset, ensureDirectory, makeDirectories_of_directory directory]
    rfl
  have done : (s.writeDocument (.object []) d).result = .ok () := writeDocument_done there _
  have accepted : SettingsLayer.ofMembers [] = .ok {} := rfl
  rw [ensured]
  exact ⟨done, current_written accepted done⟩

end SettingsStore

namespace Command

open Disk DepClause.Path

variable {fault : Fault}

/-! ## The reset command -/

/-- The command prints that it is done where the settings file is written. -/
theorem run_clearSettings (store : SettingsStore) (s : Session)
    (h : (store.reset s.disk).result = .ok ()) :
    (Action.run store .resetSettings).run.run s
      = (.ok 0, { s with
          disk := (store.reset s.disk).disk
          printed := s.printed ++ [.line "✓ 설정이 초기화되었습니다"] }) := by
  change (clearSettings store >>= fun _ => pure 0).run.run s = _
  rw [clearSettings, run_bind, run_bind, run_change, h]
  rfl

section
variable {home l : String} {args : List String} {globals : Globals} {disk : Disk}

/-- The directory of the settings of a home directory is there with the settings file. -/
theorem directory_of_settings (there : disk.locate (storeOf home).settingsPath = .file l) :
    ∃ k, disk.locate (storeOf home).directory = .directory k := by
  have led : (disk.locate (storeOf home).settingsPath).location?.isSome := by
    rw [there]
    rfl
  exact locate_above ⟨by decide, by decide, by decide, by decide⟩
    SettingsStore.isPlainName_settings led

theorem run_of_unreadable {action : Action} (asked : parse args = .ok (.run globals action))
    (bare : globals.logFile = false) (quiet : globals.debug = false)
    (h : (storeOf home).current disk = .error fault) (logFiles : Option Log.Files) :
    (run home args disk logFiles).status = 1 ∧ (run home args disk logFiles).disk = disk
      ∧ (run home args disk logFiles).printed = [] := by
  obtain ⟨starts, -⟩ | ⟨-, same, status, printed⟩ := run_cases home asked disk logFiles
  · obtain given | ⟨settings, stored⟩ := starts.level
    · rw [quiet] at given
      cases given
    · rw [h] at stored
      cases stored
  · exact ⟨status, same bare, printed⟩

theorem run_reset_of_readable (asked : parse args = .ok (.run globals .resetSettings))
    (bare : globals.logFile = false)
    (readable : globals.debug = true ∨ ∃ settings, (storeOf home).current disk = .ok settings)
    (there : disk.locate (storeOf home).settingsPath = .file l) (logFiles : Option Log.Files) :
    (run home args disk logFiles).status = 0
      ∧ (storeOf home).current (run home args disk logFiles).disk = .ok Settings.defaults := by
  obtain ⟨k, directory⟩ := directory_of_settings there
  obtain ⟨done, defaults⟩ := SettingsStore.reset_of_file directory there
  have starts : Starts (storeOf home) globals disk := ⟨readable, by simp [bare]⟩
  obtain ⟨-, s, here, -, left, -, status⟩ | ⟨stays, -⟩ := run_cases home asked disk logFiles
  · rw [startDisk_of_bare _ bare] at here
    have cleared := run_clearSettings (storeOf home) s (by rw [here]; exact done)
    rw [conclude, cleared, here] at left status
    refine ⟨status, ?_⟩
    rw [left, defaults]
  · exact absurd starts stays

end

theorem parse_reset : parse ["config", "reset"] = .ok (.run {} .resetSettings) := by
  decide +kernel

theorem parse_debug_reset :
    parse ["--debug", "config", "reset"] = .ok (.run { debug := true } .resetSettings) := by
  decide +kernel

/-- **A reset needs settings that can be read, unless the log threshold is given.** Where there is a
settings file, the command ends with status 0 just if the file gives settings, and leaves the
defaults then; else it ends with status 1, prints nothing and leaves the disk as it is. With the
threshold given it ends with status 0 and leaves the defaults whatever the file holds. -/
theorem reset_reads_settings {home l : String} {disk : Disk} {contents : Contents}
    (there : disk.locate (storeOf home).settingsPath = .file l)
    (file : disk.files.get? l = some contents) (logFiles : Option Log.Files) :
    let plain := run home ["config", "reset"] disk logFiles
    let traced := run home ["--debug", "config", "reset"] disk logFiles
    (plain.status = 0 ↔ contents.GiveSettings)
      ∧ (contents.GiveSettings → (storeOf home).current plain.disk = .ok Settings.defaults)
      ∧ (¬contents.GiveSettings →
        plain.status = 1 ∧ plain.disk = disk ∧ plain.printed = []
          ∧ ∃ fault, (storeOf home).current plain.disk = .error fault)
      ∧ traced.status = 0 ∧ (storeOf home).current traced.disk = .ok Settings.defaults := by
  intro plain traced
  have gives := SettingsStore.exists_current_iff there file
  have recovers := run_reset_of_readable parse_debug_reset rfl (.inl rfl) there logFiles
  by_cases given : contents.GiveSettings
  · obtain ⟨status, defaults⟩ :=
      run_reset_of_readable parse_reset rfl (.inr (gives.2 given)) there logFiles
    exact ⟨iff_of_true status given, fun _ => defaults, fun damaged => absurd given damaged, recovers⟩
  · obtain ⟨fault, unread⟩ : ∃ fault, (storeOf home).current disk = .error fault := by
      cases h : (storeOf home).current disk with
      | error fault => exact ⟨fault, rfl⟩
      | ok settings => exact absurd (gives.1 ⟨settings, h⟩) given
    obtain ⟨status, same, printed⟩ := run_of_unreadable parse_reset rfl rfl unread logFiles
    have still : (storeOf home).current plain.disk = .error fault := by
      rw [same]
      exact unread
    refine ⟨iff_of_false ?_ given, fun good => absurd good given,
      fun _ => ⟨status, same, printed, fault, still⟩, recovers⟩
    rw [status]
    exact Nat.one_ne_zero

/-- The disk with contents of the settings file of `/home`. -/
def homeWith (contents : Contents) : Disk where
  files := [("/home/.pep2rpm/settings.json", contents)]
  directories := ["", "/home", "/home/.pep2rpm"]

theorem locate_homeWith (contents : Contents) :
    (homeWith contents).locate (storeOf "/home").settingsPath
      = .file "/home/.pep2rpm/settings.json" := by
  have directory : (storeOf "/home").directory = "/home/.pep2rpm" := by
    rw [storeOf, Path.join, Path.startsWith_slash]
    decide
  have path : (storeOf "/home").settingsPath = "/home/.pep2rpm/settings.json" := by
    rw [SettingsStore.settingsPath, directory, Path.join, Path.startsWith_slash]
    decide
  have start : "/home/.pep2rpm/settings.json".toList.head? = some '/' := by decide
  have parts : Path.parts "/home/.pep2rpm/settings.json"
      = ["", "home", ".pep2rpm", "settings.json"] := by decide
  have plain : Text.toPlain "/home/.pep2rpm/settings.json" = "/home/.pep2rpm/settings.json" := by
    decide
  rw [path, Disk.locate_eq, plain, if_neg (by decide), if_neg (by decide), if_neg (by decide),
    if_pos start, parts]
  rfl

/-- A setting that is not known. -/
def strange : Contents := .text "\x7b\"zzz\":1\x7d"

theorem not_giveSettings_strange : ¬strange.GiveSettings := by
  have refused : (strange.toJson.toOption.map fun v => (SettingsLayer.ofJson v).toOption.isSome)
      = some false := by
    decide +kernel
  rintro ⟨v, layer, value, accepted⟩
  rw [value, Except.toOption, Option.map_some, accepted] at refused
  cases refused

theorem reset_reads_settings_strange :
    let disk := homeWith strange
    let plain := run "/home" ["config", "reset"] disk none
    let traced := run "/home" ["--debug", "config", "reset"] disk none
    (disk.locate (storeOf "/home").settingsPath = .file "/home/.pep2rpm/settings.json"
        ∧ disk.files.get? "/home/.pep2rpm/settings.json" = some strange ∧ ¬strange.GiveSettings)
      ∧ plain.status = 1 ∧ plain.disk = disk
      ∧ traced.status = 0 ∧ (storeOf "/home").current traced.disk = .ok Settings.defaults := by
  intro disk plain traced
  have there := locate_homeWith strange
  have file : disk.files.get? "/home/.pep2rpm/settings.json" = some strange := rfl
  obtain ⟨-, -, stopped, recovers⟩ := reset_reads_settings there file none
  obtain ⟨status, same, -⟩ := stopped not_giveSettings_strange
  exact ⟨⟨there, file, not_giveSettings_strange⟩, status, same, recovers⟩

/-- The reset does not recover from a setting that is not known. -/
theorem reset_stops_at_strange :
    ¬∀ contents, (run "/home" ["config", "reset"] (homeWith contents) none).status = 0
      ∧ (storeOf "/home").current (run "/home" ["config", "reset"] (homeWith contents) none).disk
        = .ok Settings.defaults := by
  intro recovers
  have there := locate_homeWith strange
  have file : (homeWith strange).files.get? "/home/.pep2rpm/settings.json" = some strange := rfl
  cases h : (storeOf "/home").current (homeWith strange) with
  | ok settings =>
    exact not_giveSettings_strange ((SettingsStore.exists_current_iff there file).1 ⟨settings, h⟩)
  | error fault =>
    obtain ⟨status, -⟩ := run_of_unreadable parse_reset rfl rfl h none
    rw [(recovers strange).1] at status
    cases status

end Command

end DepClause
