import DepClause.Command.Conversion
import DepClause.Command.SettingsCommands
import DepClause.Command.Versions

/-!
# The program

A command line is read, the log is set up from the stored settings, and the command runs. A failure
is reported in the log under what failed, and ends the program with status 1.
-/

namespace DepClause.Command

def programVersion : String := "0.3.0"

/-- What is printed without arguments. -/
def overview : List String :=
  ["\n  pep2rpm - Python 의존성을 RPM 의존성으로 변환\n",
   "  사용법: pep2rpm <명령어> [옵션]\n",
   "  명령어:",
   "    convert     요구사항 → RPM 의존성 절",
   "    encode      PEP 440 버전 → RPM 레이블",
   "    sort        PEP 440 정렬과 RPM 순서 비교",
   "    tags        메타데이터 → 의존성 태그",
   "    config      설정 관리",
   "\n  예시:",
   "    pep2rpm convert 'requests>=2.20' 'enum34; python_version < \"3.4\"'",
   "    pep2rpm convert -f requirements.txt -e socks --tag Requires",
   "    pep2rpm encode 1.0a1 1.0.dev1 1.0.post1",
   "    pep2rpm tags dist-info/METADATA -p \">=3.8\"",
   "\n  자세한 내용: pep2rpm --help\n"]

/-- What is left of a run: the disk and log files, what it printed, its error output and its
status. -/
structure Outcome where
  disk : Disk
  logFiles : Option Log.Files
  printed : List Printed
  errors : List String
  status : Nat

/-- The files that an action reads besides the stored settings. -/
def Action.files : Action → List String
  | .convert _ o file .. => [o.settingsFile, file]
  | .tags path o .. => [o.settingsFile, path]
  | _ => []

/-- What a failure of an action is reported under. -/
def Action.context : Action → String
  | .convert .. => "변환 실패"
  | .encode .. => "인코딩 실패"
  | .sort .. => "정렬 실패"
  | .tags .. => "태그 생성 실패"
  | .getSetting _ | .listSettings => "설정 조회 실패"
  | .setSetting .. => "설정 저장 실패"
  | .resetSettings => "설정 초기화 실패"

/-- An action and the status that it ends with. -/
def Action.run (store : SettingsStore) : Action → Run Nat
  | .convert requirements o file extras tag => do
    convertRequirements store requirements o file extras tag
    return 0
  | .encode versions strictLocal => do
    printLabels versions strictLocal
    return 0
  | .sort versions strictLocal => do
    return if ← printSorted versions strictLocal then 0 else 1
  | .tags path o buildRequires pythonVersion => do
    printTags store path o buildRequires pythonVersion
    return 0
  | .getSetting key => do
    showSetting store key
    return 0
  | .setSetting key text => do
    storeSetting store key text
    return 0
  | .listSettings => do
    showSettings store
    return 0
  | .resetSettings => do
    clearSettings store
    return 0

/-- The log threshold of a run: the lowest one if that is asked for, or the stored one. -/
def logThreshold (store : SettingsStore) (globals : Globals) : Run Log.Level :=
  if globals.debug then pure .debug else (·.logLevel) <$> Run.read store.current

/-- The log of a run, with log files if they are asked for. -/
def setUpLog (store : SettingsStore) (globals : Globals) : Run Unit := do
  let level ← logThreshold store globals
  if globals.logFile then
    Run.change store.ensureDirectories
    modify fun s =>
      let (logger, output) := s.logger.start level store.logsPath s.output
      { s with logger, output }
  else
    modify fun s => { s with logger := { s.logger with threshold := level } }

/-- The session after a computation, and the status: that of the computation, or 1 after a failure,
which is reported under a context. -/
def conclude (context : String) (run : Run Nat) (s : Session) : Session × Nat :=
  match run.run.run s with
  | (.ok status, s) => (s, status)
  | (.error fault, s) => (s.report context fault, 1)

/-- The session after an action. Without a log nothing runs. -/
def perform (store : SettingsStore) (globals : Globals) (action : Action) (s : Session) :
    Session × Nat :=
  match (setUpLog store globals).run.run s with
  | (.ok _, s) => conclude action.context (action.run store) s
  | (.error fault, s) => (s.report "오류" fault, 1)

/-- The settings of a home directory. -/
def storeOf (home : String) : SettingsStore := ⟨Path.join home ".pep2rpm"⟩

/-- The files that a command line may read. -/
def filesOf (home : String) (args : List String) : List String :=
  let named := match parse args with
    | .ok (.run _ action) => action.files
    | _ => []
  ((storeOf home).settingsPath :: named).filter (!·.isEmpty)

/-- Runs a command line with the settings of a home directory. -/
def run (home : String) (args : List String) (disk : Disk) (logFiles : Option Log.Files) :
    Outcome :=
  let quiet : Outcome := { disk, logFiles, printed := [], errors := [], status := 0 }
  match parse args with
  | .error e =>
    let message := e.fault.message
    let again := if e.ofProgram then ["오류: " ++ message] else []
    { quiet with errors := message :: again, status := 1 }
  | .ok .overview => { quiet with printed := overview.map .line }
  | .ok .version => { quiet with printed := [.line programVersion] }
  | .ok (.help status) => { quiet with status }
  | .ok (.run globals action) =>
    let store := storeOf home
    let start : Session := { disk, output := { files := logFiles } }
    let (s, status) := perform store globals action start
    { disk := s.disk
      logFiles := s.output.files
      printed := s.printed
      errors := s.output.console
      status }

end DepClause.Command
