import DepClause.Proofs.Table
import DepClause.Settings.Store

/-!
# Layers over settings

Folding layers over settings leaves the last value given for every setting, and in the two tables
the last entry given for every name. Loading the settings is such a fold: over the layer of the
settings file, that of a further file and the overrides, as far as they are there.
-/

namespace DepClause

/-- The last value that layers give. -/
def SettingsLayer.lastGiven {α : Type} (field : SettingsLayer → Option α)
    (layers : List SettingsLayer) : Option α :=
  (layers.filterMap field).getLast?

theorem SettingsLayer.lastGiven_cons {α : Type} (field : SettingsLayer → Option α)
    (layer : SettingsLayer) (layers : List SettingsLayer) :
    lastGiven field (layer :: layers) = (lastGiven field layers).or (field layer) := by
  simp only [lastGiven, List.filterMap_cons]
  cases field layer with
  | none => simp
  | some v => rw [List.getLast?_cons, Option.or_some]

namespace Settings

open SettingsLayer

theorem merge_merge_self (s : Settings) (layer : SettingsLayer) :
    (s.merge layer).merge layer = s.merge layer := by
  have overwritten {α : Type} (v : Option α) (w : α) : v.getD (v.getD w) = v.getD w := by
    cases v <;> rfl
  simp only [merge, Table.merge_merge_self, overwritten]
  cases layer.pythonVersion <;> rfl

theorem merge_empty (s : Settings) : s.merge {} = s := rfl

/-- What each merge takes from the layer or else keeps, a whole fold takes from the last layer
that gives it. -/
theorem foldl_merge_or {α : Type} (kept : Settings → Option α) (given : SettingsLayer → Option α)
    (one : ∀ s layer, kept (s.merge layer) = (given layer).or (kept s))
    (s : Settings) (layers : List SettingsLayer) :
    kept (layers.foldl merge s) = (lastGiven given layers).or (kept s) := by
  induction layers generalizing s with
  | nil => rfl
  | cons layer layers ih =>
    rw [List.foldl_cons, ih, one, lastGiven_cons, Option.or_assoc]

theorem foldl_merge_getD {α : Type} (kept : Settings → α) (given : SettingsLayer → Option α)
    (one : ∀ s layer, kept (s.merge layer) = (given layer).getD (kept s))
    (s : Settings) (layers : List SettingsLayer) :
    kept (layers.foldl merge s) = (lastGiven given layers).getD (kept s) := by
  have wrapped := foldl_merge_or (fun s => some (kept s)) given
    (fun s layer => by rw [one, Option.or_some]) s layers
  exact Option.some.inj (wrapped.trans Option.or_some)

/-- The settings hold the last value of the layers for every setting and every name of the two
tables, and that of the base where no layer gives one. -/
structure LastOf (base : Settings) (layers : List SettingsLayer) (s : Settings) : Prop where
  environment : ∀ name, s.environment.get? name
    = (lastGiven (fun l => (l.environment.getD []).last? name) layers).or
        (base.environment.get? name)
  capabilityRules : ∀ name, s.capabilityRules.get? name
    = (lastGiven (fun l => (l.capabilityRules.getD []).last? name) layers).or
        (base.capabilityRules.get? name)
  packageTemplate : s.packageTemplate
    = (lastGiven (·.packageTemplate) layers).getD base.packageTemplate
  abiCapability : s.abiCapability = (lastGiven (·.abiCapability) layers).getD base.abiCapability
  versionStyle : s.versionStyle = (lastGiven (·.versionStyle) layers).getD base.versionStyle
  strictLocal : s.strictLocal = (lastGiven (·.strictLocal) layers).getD base.strictLocal
  requires : s.requires = (lastGiven (·.requires) layers).getD base.requires
  suggests : s.suggests = (lastGiven (·.suggests) layers).getD base.suggests
  requiresExtras : s.requiresExtras
    = (lastGiven (·.requiresExtras) layers).getD base.requiresExtras
  suggestsExtras : s.suggestsExtras
    = (lastGiven (·.suggestsExtras) layers).getD base.suggestsExtras
  optionalTag : s.optionalTag = (lastGiven (·.optionalTag) layers).getD base.optionalTag
  logLevel : s.logLevel = (lastGiven (·.logLevel) layers).getD base.logLevel
  pythonVersion : s.pythonVersion = (lastGiven (·.pythonVersion) layers).or base.pythonVersion

theorem lastOf_foldl_merge (base : Settings) (layers : List SettingsLayer) :
    LastOf base layers (layers.foldl merge base) where
  environment name :=
    foldl_merge_or (·.environment.get? name) _ (fun _ _ => Table.get?_merge _ _ name) base layers
  capabilityRules name :=
    foldl_merge_or (·.capabilityRules.get? name) _ (fun _ _ => Table.get?_merge _ _ name) base
      layers
  packageTemplate := foldl_merge_getD (·.packageTemplate) _ (fun _ _ => rfl) base layers
  abiCapability := foldl_merge_getD (·.abiCapability) _ (fun _ _ => rfl) base layers
  versionStyle := foldl_merge_getD (·.versionStyle) _ (fun _ _ => rfl) base layers
  strictLocal := foldl_merge_getD (·.strictLocal) _ (fun _ _ => rfl) base layers
  requires := foldl_merge_getD (·.requires) _ (fun _ _ => rfl) base layers
  suggests := foldl_merge_getD (·.suggests) _ (fun _ _ => rfl) base layers
  requiresExtras := foldl_merge_getD (·.requiresExtras) _ (fun _ _ => rfl) base layers
  suggestsExtras := foldl_merge_getD (·.suggestsExtras) _ (fun _ _ => rfl) base layers
  optionalTag := foldl_merge_getD (·.optionalTag) _ (fun _ _ => rfl) base layers
  logLevel := foldl_merge_getD (·.logLevel) _ (fun _ _ => rfl) base layers
  pythonVersion := foldl_merge_or (·.pythonVersion) _ (fun _ layer => by
    cases given : layer.pythonVersion <;> simp [merge, given]) base layers

end Settings

namespace SettingsStore

/-! ## Loading -/

section
variable (s : SettingsStore) (d : Disk) (path extra : String)

/-- The layer of a file: what its document holds, if there is a document and its members are
settings. -/
def fileLayer : Except Fault SettingsLayer :=
  match d.readDocument path with
  | .error fault => .error fault
  | .ok v => (SettingsLayer.ofJson v).mapError .refused

/-- The layer of the settings file, if there is one. -/
def storedLayers : Except Fault (List SettingsLayer) :=
  if d.pathExists s.settingsPath then (fileLayer d s.settingsPath).map ([·]) else .ok []

/-- The layer of a further file, if one is named; it must be there then. -/
def furtherLayers : Except Fault (List SettingsLayer) :=
  if extra = "" then .ok []
  else if d.pathExists extra then (fileLayer d extra).map ([·])
  else .error (.refused (.badSetting "--config" (.missingFile extra)))

end

theorem readLayer_eq_fileLayer (d : Disk) (path : String) :
    readLayer d path = fileLayer d path := by
  rw [readLayer, fileLayer]
  cases d.readDocument path <;> rfl

theorem current_eq_foldl (s : SettingsStore) (d : Disk) :
    s.current d = (s.storedLayers d).map (·.foldl Settings.merge .defaults) := by
  rw [current, storedLayer, storedLayers, readLayer_eq_fileLayer]
  split
  · cases fileLayer d s.settingsPath <;> rfl
  · rfl

theorem storedLayers_bind {β : Type} (s : SettingsStore) (d : Disk)
    (next : List SettingsLayer → Except Fault β) :
    s.storedLayers d >>= next = if d.pathExists s.settingsPath then
      fileLayer d s.settingsPath >>= fun layer => next [layer] else next [] := by
  rw [storedLayers]
  split
  · cases fileLayer d s.settingsPath <;> rfl
  · rfl

theorem furtherLayers_bind {β : Type} (d : Disk) (extra : String)
    (next : List SettingsLayer → Except Fault β) :
    furtherLayers d extra >>= next = if extra = "" then next []
      else if d.pathExists extra then fileLayer d extra >>= fun layer => next [layer]
      else .error (.refused (.badSetting "--config" (.missingFile extra))) := by
  rw [furtherLayers]
  split
  · rfl
  · split
    · cases fileLayer d extra <;> rfl
    · rfl

/-- Loading merges one file after the other, and stops at the first that gives no layer. -/
theorem load_eq_foldl (s : SettingsStore) (d : Disk) (extra : String) (overrides : SettingsLayer) :
    s.load d extra overrides = (do
      let stored ← s.storedLayers d
      let further ← furtherLayers d extra
      return (stored ++ further ++ [overrides]).foldl Settings.merge .defaults) := by
  have named : (!extra.isEmpty) = true ↔ extra ≠ "" := by simp
  have missing : (!d.pathExists extra) = true ↔ ¬d.pathExists extra = true := by simp
  simp only [load, readLayer_eq_fileLayer, named, missing, ite_not, storedLayers_bind,
    furtherLayers_bind]
  rfl

theorem load_without_layers (s : SettingsStore) (d : Disk) : s.load d "" {} = s.current d := by
  rw [load_eq_foldl, current_eq_foldl]
  cases s.storedLayers d with
  | error fault => rfl
  | ok stored =>
    change Except.ok ((stored ++ [] ++ [_]).foldl Settings.merge .defaults) = _
    rw [List.append_nil, List.foldl_append]
    exact congrArg Except.ok (Settings.merge_empty _)

/-- **Folding layers over the defaults leaves for every setting the value of the last layer that
gives it, and for every name of the two tables the entry of the last layer whose table has it;
merging a layer again right away changes nothing. Loading is this fold over the layers of the
settings file and of a further file, as far as there is one, and the overrides, and fails as the
first file does that gives no layer. Without a further file and overrides it is what the store
holds.** -/
theorem layers_in_order :
    (∀ layers, Settings.LastOf .defaults layers (layers.foldl Settings.merge .defaults))
      ∧ (∀ (s : Settings) layer, (s.merge layer).merge layer = s.merge layer)
      ∧ (∀ (store : SettingsStore) d extra overrides, store.load d extra overrides = (do
          let stored ← store.storedLayers d
          let further ← furtherLayers d extra
          return (stored ++ further ++ [overrides]).foldl Settings.merge .defaults))
      ∧ ∀ (store : SettingsStore) d,
        store.load d "" {} = store.current d
          ∧ store.current d = (store.storedLayers d).map (·.foldl Settings.merge .defaults) :=
  ⟨Settings.lastOf_foldl_merge .defaults, Settings.merge_merge_self, load_eq_foldl,
    fun store d => ⟨load_without_layers store d, current_eq_foldl store d⟩⟩

end SettingsStore

end DepClause
