import DepClause.Command.Session

/-!
# Settings on the command line

The commands that show and change the stored settings.
-/

namespace DepClause.Command

/-- What each setting means. -/
def descriptions : Table String :=
  [("environment", "변환 시점 마커 변수 값"), ("dynamicVariables", "설치 시점 변수 매핑"),
   ("packageTemplate", "패키지 capability 템플릿"), ("pythonAbiCapability", "Python ABI capability"),
   ("versionStyle", "버전 표기 (literal, rpm)"), ("strictLocalVersions", "혼합 로컬 세그먼트 거부"),
   ("requires", "추가 Requires"), ("suggests", "추가 선택 의존성"),
   ("requiresExtras", "Requires에 포함할 extra"), ("suggestsExtras", "선택 의존성에 포함할 extra"),
   ("optionalDependencyTag", "선택 의존성 태그"), ("pythonVersion", "Python 버전 지정자"),
   ("logLevel", "로그 레벨")]

/-- The value that a text on the command line stands for: a document if it is one, else itself. -/
def valueOf (text : String) : Json :=
  match Json.parse text with
  | .ok v => v
  | .error _ => .text text

/-- Prints one setting, or all of them without a key. -/
def showSetting (store : SettingsStore) (key : String) : Run Unit := do
  let settings ← Run.read store.current
  if key.isEmpty then
    Run.lines ["\n현재 설정:", settings.toJson.pretty]
  else
    match settings.toJson.member? key with
    | some v => Run.line (key ++ ": " ++ v.render)
    | none => Run.line ("설정 '" ++ key ++ "'를 찾을 수 없습니다")

/-- Stores one setting. -/
def storeSetting (store : SettingsStore) (key text : String) : Run Unit := do
  let v := valueOf text
  Run.change fun disk => store.set disk key v
  Run.line ("✓ 설정이 저장되었습니다: " ++ key ++ " = " ++ v.render)

/-- Prints a table of all settings. -/
def showSettings (store : SettingsStore) : Run Unit := do
  let settings ← Run.read store.current
  Run.line ("\n설정 목록 (" ++ store.settingsPath ++ "):\n")
  Run.print <| .table ["설정", "값", "설명"] <|
    settings.asLayer.members.map fun (key, v) =>
      let shown := match v with
        | .text s => s
        | v => v.render
      [key, shown, (descriptions.get? key).getD "-"]

/-- Empties the settings file. -/
def clearSettings (store : SettingsStore) : Run Unit := do
  Run.change store.reset
  Run.line "✓ 설정이 초기화되었습니다"

end DepClause.Command
