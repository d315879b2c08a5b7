import DepClause.Command.Program
import DepClause.Proofs.Settings.Reload

/-!
# Before a command

A command runs once the log is set up, and then on the disk that was given, with further directories
if log files are asked for. Where the log cannot be set up nothing runs and nothing is printed.
-/

namespace DepClause.Command

/-! ## Steps of a command -/

section
variable {α β : Type}

theorem run_bind (m : Run α) (next : α → Run β) (s : Session) :
    (m >>= next).run.run s = match m.run.run s with
      | (.ok a, t) => (next a).run.run t
      | (.error fault, t) => (.error fault, t) := by
  rw [ExceptT.run_bind, StateT.run_bind]
  cases m.run.run s with
  | mk result t => cases result <;> rfl

theorem run_read (f : Disk → Except Fault α) (s : Session) :
    (Run.read f).run.run s = (f s.disk, s) := by
  change (Run.ofExcept (f s.disk)).run.run s = _
  cases f s.disk <;> rfl

theorem run_change (f : Disk → Changed Fault) (s : Session) :
    (Run.change f).run.run s = ((f s.disk).result, { s with disk := (f s.disk).disk }) := by
  change (Run.ofExcept (f s.disk).result).run.run { s with disk := (f s.disk).disk } = _
  cases (f s.disk).result <;> rfl

end

/-! ## The log -/

section
variable (store : SettingsStore) (globals : Globals) (d : Disk)

/-- The log can be set up: its threshold is given or can be read, and its files have a directory if
they are asked for. -/
structure Starts : Prop where
  level : globals.debug = true ∨ ∃ settings, store.current d = .ok settings
  files : globals.logFile = true → (store.ensureDirectories d).result = .ok ()

/-- The disk on which a command runs. -/
def startDisk : Disk := if globals.logFile then (store.ensureDirectories d).disk else d

end

variable {store : SettingsStore} {globals : Globals} {d : Disk}

theorem startDisk_of_bare (store : SettingsStore) (bare : globals.logFile = false) (d : Disk) :
    startDisk store globals d = d := by
  rw [startDisk, bare]
  rfl

/-- A command finds all files as they were given. -/
theorem grown_startDisk (store : SettingsStore) (globals : Globals) (d : Disk) :
    d.Grown (fun l => d.files.get? l = none) (startDisk store globals d) := by
  rw [startDisk]
  split
  · exact SettingsStore.grown_ensureDirectories store d
  · exact .refl _ d

theorem run_logThreshold (store : SettingsStore) (globals : Globals) (s : Session) :
    (logThreshold store globals).run.run s
      = (if globals.debug then .ok .debug else (store.current s.disk).map (·.logLevel), s) := by
  rw [logThreshold]
  cases globals.debug with
  | true => rfl
  | false =>
    rw [if_neg Bool.false_ne_true, if_neg Bool.false_ne_true, map_eq_pure_bind, run_bind, run_read]
    cases store.current s.disk <;> rfl

theorem exists_threshold_iff (globals : Globals) (current : Except Fault Settings) :
    (∃ level, (if globals.debug then .ok .debug else current.map (·.logLevel)) = .ok level)
      ↔ globals.debug = true ∨ ∃ settings, current = .ok settings := by
  cases globals.debug with
  | true => simp
  | false => cases current <;> simp [Except.map]

/-- The log is set up without a word, or nothing runs. -/
theorem setUpLog_cases (store : SettingsStore) (globals : Globals) (s : Session) :
    (Starts store globals s.disk ∧ ∃ t, (setUpLog store globals).run.run s = (.ok (), t)
      ∧ t.disk = startDisk store globals s.disk ∧ t.printed = s.printed)
    ∨ ¬Starts store globals s.disk ∧ ∃ fault t,
      (setUpLog store globals).run.run s = (.error fault, t)
        ∧ (globals.logFile = false → t.disk = s.disk) ∧ t.printed = s.printed := by
  have known := exists_threshold_iff globals (store.current s.disk)
  rw [setUpLog, run_bind, run_logThreshold]
  generalize (if globals.debug then .ok .debug else (store.current s.disk).map (·.logLevel)) = level
    at known
  cases level with
  | error fault =>
    refine .inr ⟨fun starts => ?_, fault, s, rfl, fun _ => rfl, rfl⟩
    obtain ⟨l, impossible⟩ := known.2 starts.level
    cases impossible
  | ok level =>
    have given := known.1 ⟨level, rfl⟩
    cases wanted : globals.logFile with
    | false =>
      have same := startDisk_of_bare store wanted s.disk
      exact .inl ⟨⟨given, by simp [wanted]⟩, _, rfl, same.symm, rfl⟩
    | true =>
      dsimp only
      rw [if_pos rfl, run_bind, run_change]
      cases made : (store.ensureDirectories s.disk).result with
      | error fault =>
        refine .inr ⟨fun starts => ?_, fault, _, rfl, by simp, rfl⟩
        rw [starts.files wanted] at made
        cases made
      | ok _ =>
        refine .inl ⟨⟨given, fun _ => made⟩, _, rfl, ?_, rfl⟩
        rw [startDisk, wanted]
        rfl

/-- A run either starts its action, on the disk that is ready for it, or ends with status 1 and has
printed nothing. It leaves the disk as it is then, unless it made directories for log files. -/
theorem run_cases (home : String) {args : List String} {action : Action}
    (asked : parse args = .ok (.run globals action)) (disk : Disk)
    (logFiles : Option Log.Files) :
    let store := storeOf home
    let outcome := run home args disk logFiles
    (Starts store globals disk ∧ ∃ s : Session, s.disk = startDisk store globals disk
      ∧ s.printed = [] ∧ outcome.disk = (conclude action.context (action.run store) s).1.disk
      ∧ outcome.printed = (conclude action.context (action.run store) s).1.printed
      ∧ outcome.status = (conclude action.context (action.run store) s).2)
    ∨ ¬Starts store globals disk ∧ (globals.logFile = false → outcome.disk = disk)
      ∧ outcome.status = 1 ∧ outcome.printed = [] := by
  intro store outcome
  obtain ⟨starts, s, ready, here, quiet⟩ | ⟨stays, fault, s, stopped, same, quiet⟩ :=
    setUpLog_cases store globals { disk, output := { files := logFiles } }
  · refine .inl ⟨starts, s, here, quiet, ?_⟩
    simp only [outcome, run, asked, perform, store] at ready ⊢
    rw [ready]
    exact ⟨rfl, rfl, rfl⟩
  · refine .inr ⟨stays, ?_⟩
    simp only [outcome, run, asked, perform, store] at stopped ⊢
    rw [stopped]
    exact ⟨same, rfl, quiet⟩

end DepClause.Command
