import DepClause.Proofs.Disk.Growth
import DepClause.Proofs.Settings.Reading
import DepClause.Settings.Store

/-!
# What the settings file holds

Either there is no settings file, or it holds an object, as it was given or as it was written.
Making the directory changes neither, and writing an object leaves one that holds it.
-/

namespace DepClause

namespace Disk

theorem locate_directory_mono {d e : Disk} (here : e.here = d.here)
    (kept : ∀ l ∈ d.directories, l ∈ e.directories) {path l : String}
    (h : d.locate path = .directory l) : e.locate path = .directory l := by
  rcases locate_cases path with ⟨fault, nowhere, refused⟩ | followed
  · rw [refused d] at h
    rw [h] at nowhere
    cases nowhere
  · have start : e.startOf (Text.toPlain path) = d.startOf (Text.toPlain path) := by
      rw [startOf, startOf, here]
    rw [followed d] at h
    rw [followed e, start]
    exact follow_directory_mono kept h

theorem pathExists_of_location?_eq_none {d : Disk} {path : String}
    (h : (d.locate path).location? = none) : d.pathExists path = false := by
  rw [pathExists]
  cases place : d.locate path with
  | file | directory =>
    rw [place] at h
    cases h
  | vacant | missing | notDirectory | nameTooLong | nullInPath => rfl

theorem readText_of_not_pathExists {d : Disk} {path : String} (h : d.pathExists path = false) :
    (d.readText path).toOption = none := by
  rw [pathExists] at h
  rw [readText, read]
  cases place : d.locate path with
  | file | directory =>
    rw [place] at h
    cases h
  | vacant | missing | notDirectory | nameTooLong | nullInPath => rfl

theorem readDocument_of_file {d : Disk} {path l : String} {contents : Contents} {v : Json}
    (there : d.locate path = .file l) (file : d.files.get? l = some contents)
    (value : contents.toJson = .ok v) : d.readDocument path = .ok v := by
  simp only [readDocument, read, there, file, value]

theorem file_of_readDocument {d : Disk} {path : String} {v : Json}
    (h : d.readDocument path = .ok v) :
    ∃ l contents, d.locate path = .file l ∧ d.files.get? l = some contents
      ∧ contents.toJson = .ok v := by
  rw [readDocument, read] at h
  cases place : d.locate path with
  | file l =>
    cases file : d.files.get? l with
    | none =>
      simp only [place, file] at h
      cases h
    | some contents =>
      simp only [place, file] at h
      refine ⟨l, contents, rfl, file, ?_⟩
      cases value : contents.toJson with
      | ok w =>
        rw [value] at h
        cases h
        rfl
      | error e =>
        rw [value] at h
        cases h
  | directory | vacant | missing | notDirectory | nameTooLong | nullInPath =>
    rw [place] at h
    cases h

theorem readText_congr {d e : Disk} {path : String} (place : e.locate path = d.locate path)
    (files : e.files = d.files) : e.readText path = d.readText path := by
  rw [readText, readText, read, read, place, files]

/-- Writing sets one file at the location of the path or leaves the disk as it is. -/
theorem write_cases (d : Disk) (path : String) (contents : Contents) :
    (∃ l, (d.locate path).location? = some l
        ∧ d.write path contents = .done { d with files := d.files.set l contents })
      ∨ ∃ fault, d.write path contents = .failed d fault := by
  rw [write]
  cases d.locate path with
  | file l | vacant l => exact .inl ⟨l, rfl, rfl⟩
  | directory | missing | notDirectory | nameTooLong | nullInPath => exact .inr ⟨_, rfl⟩

end Disk

namespace SettingsStore

open Disk DepClause.Path

theorem isPlainName_settings : IsPlainName "settings.json" where
  ne_empty := by decide
  ne_point := by decide
  ne_up := by decide
  slash := by decide
  small := by simp

/-- What the settings file holds; nothing where there is no such file, and there is none as long
as its path is refused. -/
inductive Holds (s : SettingsStore) (d : Disk) : Table Json → Prop
  | refused (never : ∀ e : Disk, e.here = d.here → (e.locate s.settingsPath).location? = none) :
      Holds s d []
  | absent (free : d.location s.settingsPath ∉ d.directories)
      (gone : d.files.get? (d.location s.settingsPath) = none) : Holds s d []
  | stored {object written : Table Json} {contents : Contents}
      (free : d.location s.settingsPath ∉ d.directories)
      (there : d.locate s.settingsPath = .file (d.location s.settingsPath))
      (file : d.files.get? (d.location s.settingsPath) = some contents)
      (value : contents.toJson = .ok (.object written))
      (same : written = object ∨ written = Json.storedMembers object) : Holds s d object

variable {s : SettingsStore} {d e : Disk} {object : Table Json}

/-- Where the settings path leads it leads to what is at its location. -/
theorem locate_settingsPath (led : (d.locate s.settingsPath).location?.isSome)
    (here : e.here = d.here) (kept : ∀ l ∈ d.directories, l ∈ e.directories) :
    e.locate s.settingsPath = e.placeOf (e.location s.settingsPath) :=
  locate_join_mono isPlainName_settings led here kept

/-- A file at the location of the settings is the settings file, where the path leads there. -/
theorem holds_of_file {written : Table Json} {contents : Contents} (here : e.here = d.here)
    (directories : e.directories = d.directories)
    (led : (d.locate s.settingsPath).location?.isSome)
    (free : d.location s.settingsPath ∉ d.directories)
    (file : e.files.get? (d.location s.settingsPath) = some contents)
    (value : contents.toJson = .ok (.object written))
    (same : written = object ∨ written = Json.storedMembers object) : Holds s e object := by
  rw [← location_congr here] at free file
  rw [← directories] at free
  have place := locate_settingsPath led here (fun l there => directories ▸ there)
  exact .stored free (place.trans (placeOf_file free file)) file value same

theorem holds_of_readDocument (h : d.readDocument s.settingsPath = .ok (.object object)) :
    Holds s d object := by
  obtain ⟨l, contents, there, file, value⟩ := file_of_readDocument h
  have led : (d.locate s.settingsPath).location? = some l := by rw [there]; rfl
  have found : (d.locate s.settingsPath).location?.isSome := by rw [led]; rfl
  rw [location?_locate led] at there file
  refine holds_of_file (d := d) rfl rfl found (fun directory => ?_) file value (.inl rfl)
  rw [locate_settingsPath found rfl (fun _ => id), placeOf_directory directory] at there
  cases there

theorem not_pathExists_of_absent (free : d.location s.settingsPath ∉ d.directories)
    (gone : d.files.get? (d.location s.settingsPath) = none) :
    d.pathExists s.settingsPath = false := by
  cases led : (d.locate s.settingsPath).location? with
  | none => exact pathExists_of_location?_eq_none led
  | some l =>
    have place := locate_settingsPath (by rw [led]; rfl) rfl (fun _ => id)
    rw [pathExists, place, placeOf_vacant free gone]

/-- What the store reads is what the settings file holds. -/
theorem Holds.cases (h : Holds s d object) :
    (d.pathExists s.settingsPath = false ∧ object = [])
      ∨ ∃ written, d.pathExists s.settingsPath = true
        ∧ d.readDocument s.settingsPath = .ok (.object written)
        ∧ (written = object ∨ written = Json.storedMembers object) := by
  cases h with
  | refused never => exact .inl ⟨pathExists_of_location?_eq_none (never d rfl), rfl⟩
  | absent free gone => exact .inl ⟨not_pathExists_of_absent free gone, rfl⟩
  | stored free there file value same =>
    exact .inr ⟨_, by rw [pathExists, there], readDocument_of_file there file value, same⟩

/-- The stored settings are those of the object that the file holds. -/
theorem Holds.current (h : Holds s d object) {layer : SettingsLayer}
    (accepted : SettingsLayer.ofMembers object = .ok layer) :
    s.current d = .ok (Settings.defaults.merge layer) := by
  rcases h.cases with ⟨gone, rfl⟩ | ⟨written, there, document, same⟩
  · cases accepted
    rw [SettingsStore.current, storedLayer, if_neg (by rw [gone]; exact Bool.false_ne_true)]
    rfl
  · have layer_written : SettingsLayer.ofMembers written = .ok layer := by
      rcases same with rfl | rfl
      · exact accepted
      · exact SettingsLayer.ofMembers_storedMembers accepted
    rw [SettingsStore.current, storedLayer, if_pos there, readLayer, document]
    change ((SettingsLayer.ofMembers written).mapError Fault.refused).map _ = _
    rw [layer_written]
    rfl

/-- The members to which a set adds one are those of the object that the file holds. -/
theorem Holds.storedMembers (h : Holds s d object) :
    ∃ members, s.storedMembers d = .ok members
      ∧ (members = object ∨ members = Json.storedMembers object) := by
  rcases h.cases with ⟨gone, rfl⟩ | ⟨written, there, document, same⟩
  · refine ⟨[], ?_, .inl rfl⟩
    rw [SettingsStore.storedMembers, if_neg (by rw [gone]; exact Bool.false_ne_true)]
  · refine ⟨written, ?_, same⟩
    rw [SettingsStore.storedMembers, if_pos there, document]
    rfl

/-! ## Changes of the disk -/

/-- The text of the settings file, or its absence, is the same on two disks. -/
def SameFile (s : SettingsStore) (d e : Disk) : Prop :=
  e.pathExists s.settingsPath = d.pathExists s.settingsPath
    ∧ (e.readText s.settingsPath).toOption = (d.readText s.settingsPath).toOption

theorem SameFile.refl (s : SettingsStore) (d : Disk) : SameFile s d d := ⟨rfl, rfl⟩

theorem sameFile_of_absent (before : d.pathExists s.settingsPath = false)
    (after : e.pathExists s.settingsPath = false) : SameFile s d e :=
  ⟨after.trans before.symm,
    (readText_of_not_pathExists after).trans (readText_of_not_pathExists before).symm⟩

/-- Further directories elsewhere leave the settings file as it is. -/
theorem Holds.grown {new : String → Prop} (h : Holds s d object) (grown : Grown new d e)
    (free : d.location s.settingsPath ∉ d.directories →
      d.location s.settingsPath ∉ e.directories) :
    Holds s e object ∧ SameFile s d e := by
  have location := location_congr grown.here s.settingsPath
  cases h with
  | refused never =>
    have still : ∀ f : Disk, f.here = e.here → (f.locate s.settingsPath).location? = none :=
      fun f here => never f (here.trans grown.here)
    exact ⟨.refused still, sameFile_of_absent (pathExists_of_location?_eq_none (never d rfl))
      (pathExists_of_location?_eq_none (still e rfl))⟩
  | absent before gone =>
    have after : e.location s.settingsPath ∉ e.directories := by
      rw [location]
      exact free before
    have still : e.files.get? (e.location s.settingsPath) = none := by
      rwa [location, grown.files]
    exact ⟨.absent after still, sameFile_of_absent (not_pathExists_of_absent before gone)
      (not_pathExists_of_absent after still)⟩
  | stored before there file value same =>
    have after : e.location s.settingsPath ∉ e.directories := by
      rw [location]
      exact free before
    have file' := file
    rw [← location, ← grown.files] at file'
    have there' : e.locate s.settingsPath = .file (e.location s.settingsPath) := by
      rw [locate_settingsPath (by rw [there]; rfl) grown.here grown.kept, placeOf_file after file']
    have place : e.locate s.settingsPath = d.locate s.settingsPath := by
      rw [there', location, there]
    refine ⟨.stored after there' file' value same, ?_, ?_⟩
    · rw [pathExists, pathExists, place]
    · rw [readText_congr place grown.files]

theorem writeDocument_frame (s : SettingsStore) (v : Json) (d : Disk) :
    (s.writeDocument v d).disk.here = d.here
      ∧ (s.writeDocument v d).disk.directories = d.directories := by
  rw [writeDocument]
  rcases Disk.write_cases d s.settingsPath (.ofDocument v) with ⟨l, -, written⟩ | ⟨fault, failed⟩
  · rw [written]
    exact ⟨rfl, rfl⟩
  · rw [failed]
    exact ⟨rfl, rfl⟩

/-- Writing an object either fails and leaves the disk as it is, or leaves a file that holds each
object that is written the same way. -/
theorem writeDocument_cases (s : SettingsStore) (d : Disk) (members : Table Json) :
    (∃ fault, s.writeDocument (.object members) d = .failed d fault)
      ∨ (s.writeDocument (.object members) d).result = .ok ()
        ∧ ∀ new, Json.storedMembers members = Json.storedMembers new →
          Holds s (s.writeDocument (.object members) d).disk new := by
  rcases Disk.write_cases d s.settingsPath (.ofDocument (.object members)) with
    ⟨l, led, written⟩ | ⟨fault, failed⟩
  · right
    have found : (d.locate s.settingsPath).location?.isSome := by rw [led]; rfl
    have free : d.location s.settingsPath ∉ d.directories := by
      intro directory
      rw [write, locate_settingsPath found rfl (fun _ => id), placeOf_directory directory] at written
      cases congrArg Changed.result written
    rw [writeDocument, written]
    refine ⟨rfl, fun new same => ?_⟩
    have file : (d.files.set l (.ofDocument (.object members))).get? (d.location s.settingsPath)
        = some (.ofDocument (.object members)) := by
      rw [Table.get?_set, if_pos (location?_locate led).symm]
    exact holds_of_file (d := d) rfl rfl found free file rfl (.inr same)
  · left
    rw [writeDocument, failed]
    exact ⟨.disk fault, rfl⟩

end SettingsStore

end DepClause
