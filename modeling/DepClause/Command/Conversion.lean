import DepClause.Command.Request
import DepClause.Command.Session

/-!
# Converting from the command line

The commands that turn requirements into clauses and metadata into tag lines. Both print only after
everything has been converted.
-/

namespace DepClause.Command

/-- The variables that pairs of a name and a value set. -/
def environmentOf (pairs : List String) : Except Fault (Table String) := do
  let entries ← pairs.foldlM (fun table pair =>
    match Text.splitFirst? '=' pair.toList with
    | some (name@(_ :: _), value) =>
      .ok (Table.set table (String.ofList (Text.trim name)) (String.ofList value))
    | _ => .error (.environmentPair pair)) []
  return Table.kept entries

/-- The settings that the options give. -/
def ConversionOptions.layer (o : ConversionOptions) : Except Fault SettingsLayer := do
  let environment ←
    if o.environment.isEmpty then .ok none else (environmentOf o.environment).map some
  return {
    versionStyle := if o.labels then some .rpm else none
    strictLocal := if o.strictLocal then some true else none
    packageTemplate := if o.template.isEmpty then none else some o.template
    environment }

/-- The settings of a run: those stored, a further file and the options. -/
def effectiveSettings (store : SettingsStore) (o : ConversionOptions) : Run Settings := do
  let layer ← Run.ofExcept o.layer
  let settings ← Run.read fun disk => store.load disk o.settingsFile layer
  Run.debug "설정 로드 완료"
    [("versionStyle", .text settings.versionStyle.text),
     ("packageTemplate", .text settings.packageTemplate)]
  return settings

/-- A line without its comment, which starts with a number sign at the start of the line or behind a
blank and reaches to the end. -/
def withoutComment (atStart : Bool) : List Char → List Char
  | [] => []
  | c :: cs =>
    let reaches (rest : List Char) : Bool := rest.all (!Text.isLineBreak ·)
    match cs with
    | d :: rest =>
      if atStart && c == '#' && reaches cs then []
      else if Text.isBlank c && d == '#' && reaches rest then []
      else c :: withoutComment false cs
    | [] => if atStart && c == '#' then [] else [c]

/-- The requirements in the lines of a file, without comments and empty lines. Lines with options
for other programs are left out with a warning. -/
def requirementsOf (lines : List (List Char)) : Logged Failure (List String) :=
  match lines with
  | [] => pure []
  | line :: lines => do
    match Text.trim (withoutComment true line) with
    | [] => requirementsOf lines
    | '-' :: rest =>
      Logged.note .warn "pip 옵션 줄은 건너뜁니다" [("line", .text (String.ofList ('-' :: rest)))]
      requirementsOf lines
    | requirement => return String.ofList requirement :: (← requirementsOf lines)

def requirementsOfText (text : String) : Logged Failure (List String) :=
  requirementsOf (Text.lines text.toList)

/-- The requirements of a file; none without a path. -/
def fileRequirements (path : String) : Run (List String) := do
  if path.isEmpty then return []
  let text ← Run.read fun disk => disk.readText path
  Run.checkLogged (requirementsOfText text)

/-- Prints the clauses of requirements, one to a line or all behind one tag. -/
def convertRequirements (store : SettingsStore) (requirements : List String) (o : ConversionOptions)
    (file extras tag : String) : Run Unit := do
  let settings ← effectiveSettings store o
  let converter ← Run.check settings.converter
  let inputs := requirements ++ (← fileRequirements file)
  if inputs.isEmpty then
    Run.line "변환할 요구사항이 없습니다"
  else
    let clauses ← Run.checkLogged (converter.convert (Text.listItems extras) inputs)
    Run.debug "변환 완료" [("input", .ofNat inputs.length), ("output", .ofNat clauses.length)]
    if tag.isEmpty then Run.lines clauses
    else Run.lines (TagPolicy.tagLine tag clauses)

/-- The metadata in a file: a document if its name says so, a header text otherwise. -/
def loadMetadata (path : String) : Run Metadata := do
  if Path.isDocument path then
    Run.check (Metadata.ofJson (← Run.read fun disk => disk.readDocument path))
  else return Metadata.parseText (← Run.read fun disk => disk.readText path)

/-- Prints the tag lines of a package. -/
def printTags (store : SettingsStore) (path : String) (o : ConversionOptions)
    (buildRequires : List String) (pythonVersion : String) : Run Unit := do
  let settings ← effectiveSettings store o
  let settings :=
    if pythonVersion.isEmpty then settings
    else { settings with pythonVersion := some pythonVersion }
  let metadata ← loadMetadata path
  let metadata := { metadata with buildRequires := metadata.buildRequires ++ buildRequires }
  Run.debug "메타데이터 로드"
    ((metadata.name.map fun name => ("name", Json.text name)).toList
      ++ [("requiresDist", .ofNat metadata.requiresDist.length),
          ("extras", .ofTexts metadata.providesExtra)])
  let converter ← Run.check settings.converter
  let lines ← Run.checkLogged (settings.tagPolicy.lines converter metadata)
  if lines.isEmpty then Run.line "의존성이 없습니다" else Run.lines lines

end DepClause.Command
