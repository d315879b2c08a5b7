import DepClause.Fault
import DepClause.Settings.Document

/-!
# The settings store

Settings are kept in one file of a directory. A setting is checked before it is stored; whatever
else the file holds is left as it is.
-/

namespace DepClause

/-- The value of the document at a path. -/
def Disk.readDocument (d : Disk) (path : String) : Except Fault Json :=
  match d.read path with
  | .error fault => .error (.disk fault)
  | .ok contents =>
    match contents.toJson with
    | .ok v => .ok v
    | .error e => .error (.syntaxError path (e.message (Contents.withoutMark contents.toText)))

/-- The text of the file at a path. -/
def Disk.readText (d : Disk) (path : String) : Except Fault String :=
  ((d.read path).map Contents.toText).mapError .disk

/-- The directory of the settings. -/
structure SettingsStore where
  directory : String
  deriving DecidableEq, Repr

namespace SettingsStore

def settingsPath (s : SettingsStore) : String := Path.join s.directory "settings.json"

def logsPath (s : SettingsStore) : String := Path.join s.directory "logs"

/-- The layer that a document on the disk holds. -/
def readLayer (d : Disk) (path : String) : Except Fault SettingsLayer := do
  (SettingsLayer.ofJson (← d.readDocument path)).mapError .refused

/-- The layer of the settings file; an empty one if there is no file. -/
def storedLayer (s : SettingsStore) (d : Disk) : Except Fault SettingsLayer :=
  if d.pathExists s.settingsPath then readLayer d s.settingsPath else .ok {}

/-- The stored settings over the defaults. -/
def current (s : SettingsStore) (d : Disk) : Except Fault Settings :=
  (s.storedLayer d).map Settings.defaults.merge

/-- The defaults with the settings file, a further file and then the overrides over them. The
further file must be there; an empty path names none. -/
def load (s : SettingsStore) (d : Disk) (extra : String) (overrides : SettingsLayer) :
    Except Fault Settings := do
  let mut settings := Settings.defaults.merge {}
  if d.pathExists s.settingsPath then
    settings := settings.merge (← readLayer d s.settingsPath)
  if !extra.isEmpty then
    if !d.pathExists extra then
      throw (.refused (.badSetting "--config" (.missingFile extra)))
    settings := settings.merge (← readLayer d extra)
  return settings.merge overrides

/-- The disk with the directory of the settings. A fault names the whole directory. -/
def ensureDirectory (s : SettingsStore) (d : Disk) : Changed Fault :=
  (d.makeDirectories s.directory).mapError fun fault => .disk (fault.on s.directory)

/-- The disk with the directories of the settings and the log files. A fault names the path at
which it stopped. -/
def ensureDirectories (s : SettingsStore) (d : Disk) : Changed Fault :=
  ((d.makeDirectories s.directory).andThen (·.makeDirectories s.logsPath)).mapError .disk

/-- The disk with a document as the settings file. -/
def writeDocument (s : SettingsStore) (v : Json) (d : Disk) : Changed Fault :=
  (d.write s.settingsPath (.ofDocument v)).mapError .disk

/-- The members of the settings file; none if it is not there or holds no object. -/
def storedMembers (s : SettingsStore) (d : Disk) : Except Fault (List (String × Json)) :=
  if d.pathExists s.settingsPath then do
    match ← d.readDocument s.settingsPath with
    | .object members => return members
    | _ => return []
  else .ok []

/-- The disk with one more member in the settings file. -/
def storeMember (s : SettingsStore) (key : String) (v : Json) (d : Disk) : Changed Fault :=
  match s.storedMembers d with
  | .ok members => s.writeDocument (.object (Table.set members key v)) d
  | .error fault => .failed d fault

/-- The disk with one setting stored, if it is a known setting with a value of the right form. -/
def set (s : SettingsStore) (d : Disk) (key : String) (v : Json) : Changed Fault :=
  match SettingsLayer.ofMembers [(key, v)] with
  | .ok _ => (s.ensureDirectory d).andThen (s.storeMember key v)
  | .error failure => .failed d (.refused failure)

/-- The disk with an empty settings file. -/
def reset (s : SettingsStore) (d : Disk) : Changed Fault :=
  (s.ensureDirectory d).andThen (s.writeDocument (.object []))

/-- The disk with a document stored as it is. -/
def save (s : SettingsStore) (d : Disk) (v : Json) : Changed Fault :=
  (s.ensureDirectories d).andThen (s.writeDocument v)

end SettingsStore

end DepClause
