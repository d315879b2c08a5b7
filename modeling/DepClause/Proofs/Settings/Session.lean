import DepClause.Proofs.Settings.Holding
import DepClause.Proofs.Disk.Nesting

/-!
# Sessions of changes

Settings are set and reset one after the other. A change that fails leaves the settings file as it
is. So after any number of changes the file holds the object it held at first, or an empty one
since the last reset that was done, with what was set since. The disk stays nested throughout.
-/

namespace DepClause

/-- A change of the settings file. -/
inductive SettingsChange where
  | set (key : String) (v : Json)
  | reset

/-- The object that a change makes of the one in the settings file. -/
def SettingsChange.on (object : Table Json) : SettingsChange → Table Json
  | .set key v => Table.set object key v
  | .reset => []

namespace SettingsStore

/-- The disk with a change of the settings file. -/
def change (s : SettingsStore) (d : Disk) : SettingsChange → Changed Fault
  | .set key v => s.set d key v
  | .reset => s.reset d

/-- The disk, and the object that the changes done so far have made of the first one. -/
structure Session where
  disk : Disk
  object : Table Json

/-- The session after one more change. The object takes no part in a change that fails. -/
def after (s : SettingsStore) (now : Session) (change : SettingsChange) : Session where
  disk := (s.change now.disk change).disk
  object := match (s.change now.disk change).result with
    | .ok _ => change.on now.object
    | .error _ => now.object

def run (s : SettingsStore) (start : Session) (changes : List SettingsChange) : Session :=
  changes.foldl s.after start

/-- The directory is there, or its path does not go up again behind a part that is named like the
settings file: making it then makes no directory in place of the file. -/
def KeepsClear (s : SettingsStore) (d : Disk) : Prop :=
  (∃ l, d.locate s.directory = .directory l)
    ∨ (Path.parts s.directory).Pairwise fun p q => ¬(p = "settings.json" ∧ q = "..")

/-- The settings file is not there, or holds an object of accepted members. -/
def Starts (s : SettingsStore) (start : Session) : Prop :=
  (start.disk.pathExists s.settingsPath = false ∧ start.object = [])
    ∨ (start.disk.readDocument s.settingsPath = .ok (.object start.object)
      ∧ ∃ layer, SettingsLayer.ofMembers start.object = .ok layer)

/-- What every change preserves: the settings file holds the object of the session, and each member
of it was accepted. -/
structure Kept (s : SettingsStore) (now : Session) : Prop where
  clear : s.KeepsClear now.disk
  holds : s.Holds now.disk now.object
  accepted : ∃ layer, SettingsLayer.ofMembers now.object = .ok layer

variable {s : SettingsStore} {now : Session}

section
open Disk

variable {d : Disk}

theorem rooted_ensureDirectory (s : SettingsStore) (rooted : d.Rooted) :
    (s.ensureDirectory d).disk.Rooted :=
  rooted.makeDirectories s.directory

theorem rooted_writeDocument (s : SettingsStore) (v : Json) (rooted : d.Rooted) :
    (s.writeDocument v d).disk.Rooted :=
  rooted.write s.settingsPath _

theorem rooted_storeMember (s : SettingsStore) (key : String) (v : Json) (rooted : d.Rooted) :
    (s.storeMember key v d).disk.Rooted := by
  rw [storeMember]
  split
  · exact rooted_writeDocument s _ rooted
  · exact rooted

theorem rooted_change (s : SettingsStore) (rooted : d.Rooted) (change : SettingsChange) :
    (s.change d change).disk.Rooted := by
  cases change with
  | reset =>
    exact (rooted_ensureDirectory s rooted).andThen fun _ => rooted_writeDocument s (.object [])
  | set key v =>
    rw [SettingsStore.change, SettingsStore.set]
    cases SettingsLayer.ofMembers [(key, v)] with
    | error failure => exact rooted
    | ok layer =>
      exact (rooted_ensureDirectory s rooted).andThen fun _ => rooted_storeMember s key v

theorem rooted_run (s : SettingsStore) {start : Session} (rooted : start.disk.Rooted)
    (changes : List SettingsChange) : (s.run start changes).disk.Rooted := by
  induction changes generalizing start with
  | nil => exact rooted
  | cons change changes ih => exact ih (rooted_change s rooted change)

end

/-! ## One change -/

/-- Making the directory of the settings leaves the settings file as it is. -/
theorem Kept.ensured (h : s.Kept now) :
    s.Kept ⟨(s.ensureDirectory now.disk).disk, now.object⟩
      ∧ SameFile s now.disk (s.ensureDirectory now.disk).disk := by
  obtain ⟨clear, holds, accepted⟩ := h
  have made : (s.ensureDirectory now.disk).disk = (now.disk.makeDirectories s.directory).disk := rfl
  rcases clear with ⟨l, there⟩ | onward
  · rw [made, Disk.makeDirectories_of_directory there]
    exact ⟨⟨.inl ⟨l, there⟩, holds, accepted⟩, SameFile.refl s now.disk⟩
  · have grown := Disk.grown_makeDirectories now.disk s.directory
    obtain ⟨still, same⟩ :=
      holds.grown grown (Disk.location_not_made isPlainName_settings onward)
    exact ⟨⟨.inr onward, still, accepted⟩, same⟩

/-- A write that is done leaves the directory as clear as it was. -/
theorem KeepsClear.written {d e : Disk} (h : s.KeepsClear d) (here : e.here = d.here)
    (kept : ∀ l ∈ d.directories, l ∈ e.directories) : s.KeepsClear e :=
  h.imp_left fun ⟨l, there⟩ => ⟨l, Disk.locate_directory_mono here kept there⟩

/-- Where the directory was made and an object written over the settings file, the object is held;
where that failed, the settings file is as it was. -/
theorem Kept.stored (h : s.Kept now) {next : Disk → Changed Fault} {members new : Table Json}
    (writes : next (s.ensureDirectory now.disk).disk
      = s.writeDocument (.object members) (s.ensureDirectory now.disk).disk)
    (same : Json.storedMembers members = Json.storedMembers new)
    (accepted : ∃ layer, SettingsLayer.ofMembers new = .ok layer) :
    let changed := (s.ensureDirectory now.disk).andThen next
    (∃ fault, changed.result = .error fault ∧ s.Kept ⟨changed.disk, now.object⟩
        ∧ SameFile s now.disk changed.disk)
      ∨ (changed.result = .ok () ∧ s.Kept ⟨changed.disk, new⟩) := by
  obtain ⟨ensured, same_file⟩ := h.ensured
  intro changed
  cases made : (s.ensureDirectory now.disk).result with
  | error fault =>
    have stopped : changed = .failed (s.ensureDirectory now.disk).disk fault := by
      simp only [changed, Changed.andThen, made]
    rw [stopped]
    exact .inl ⟨fault, rfl, ensured, same_file⟩
  | ok _ =>
    have went_on : changed
        = s.writeDocument (.object members) (s.ensureDirectory now.disk).disk := by
      simp only [changed, Changed.andThen, made, writes]
    rw [went_on]
    rcases writeDocument_cases s (s.ensureDirectory now.disk).disk members with
      ⟨fault, failed⟩ | ⟨done, holds⟩
    · rw [failed]
      exact .inl ⟨fault, rfl, ensured, same_file⟩
    · obtain ⟨here, directories⟩ :=
        writeDocument_frame s (.object members) (s.ensureDirectory now.disk).disk
      have clear := ensured.clear.written here fun l there => directories ▸ there
      exact .inr ⟨done, clear, holds new same, accepted⟩

/-- A change is done to the object that the settings file holds, or fails and leaves the settings
file as it is. -/
theorem Kept.change (h : s.Kept now) (change : SettingsChange) :
    (∃ fault, (s.change now.disk change).result = .error fault
        ∧ s.Kept ⟨(s.change now.disk change).disk, now.object⟩
        ∧ SameFile s now.disk (s.change now.disk change).disk)
      ∨ ((s.change now.disk change).result = .ok ()
        ∧ s.Kept ⟨(s.change now.disk change).disk, change.on now.object⟩) := by
  cases change with
  | reset => exact h.stored rfl rfl ⟨{}, rfl⟩
  | set key v =>
    simp only [SettingsStore.change, SettingsStore.set]
    cases check : SettingsLayer.ofMembers [(key, v)] with
    | error failure => exact .inl ⟨.refused failure, rfl, h, SameFile.refl s now.disk⟩
    | ok layer =>
      obtain ⟨members, stored, written⟩ := h.ensured.1.holds.storedMembers
      have writes : s.storeMember key v (s.ensureDirectory now.disk).disk
          = s.writeDocument (.object (Table.set members key v))
            (s.ensureDirectory now.disk).disk := by
        rw [storeMember, stored]
      have same : Json.storedMembers (Table.set members key v)
          = Json.storedMembers (Table.set now.object key v) := by
        rw [Json.storedMembers_set, Json.storedMembers_set]
        rcases written with rfl | rfl
        · rfl
        · rw [Json.storedMembers_storedMembers]
      exact h.stored writes same (SettingsLayer.exists_ofMembers_set h.accepted ⟨layer, check⟩)

/-! ## Sessions -/

theorem Kept.after (h : s.Kept now) (change : SettingsChange) :
    s.Kept (s.after now change) := by
  rcases h.change change with ⟨fault, failed, kept, -⟩ | ⟨done, kept⟩
  · rw [SettingsStore.after, failed]
    exact kept
  · rw [SettingsStore.after, done]
    exact kept

theorem Kept.run {start : Session} (h : s.Kept start) (changes : List SettingsChange) :
    s.Kept (s.run start changes) := by
  induction changes generalizing start with
  | nil => exact h
  | cons change changes ih => exact ih (h.after change)

theorem Kept.current (h : s.Kept now) :
    ∃ layer, SettingsLayer.ofMembers now.object = .ok layer
      ∧ s.current now.disk = .ok (Settings.defaults.merge layer) := by
  obtain ⟨layer, accepted⟩ := h.accepted
  exact ⟨layer, accepted, h.holds.current accepted⟩

/-- A disk without files, with directories below the working directory. -/
def bare (made : List String) : Disk where
  directories := ["", "/work"] ++ made
  here := "/work"

end SettingsStore

end DepClause
