import DepClause.Settings.Basic

/-!
# Settings as documents

A layer is read from the members of an object, each of which must be a known setting of the right
form. Settings and layers are written as such objects.
-/

namespace DepClause

namespace SettingsLayer

def readText (key : String) (v : Json) : Except Failure String :=
  match v with
  | .text s => .ok s
  | _ => .error (.badSetting key .notText)

/-- An array of texts, or the words of one text. -/
def readTexts (key : String) (v : Json) : Except Failure (List String) :=
  match v with
  | .text s => .ok (Text.words s)
  | v =>
    match v.asTexts? with
    | some items => .ok items
    | none => .error (.badSetting key .notTexts)

/-- A table whose entries are read one by one, each under its own key. -/
def readTable {α : Type} (read : String → Json → Except Failure α) (key : String) (v : Json) :
    Except Failure (Table α) :=
  match v with
  | .object members => do
    return Table.kept <| ← members.mapM fun (name, entry) => do
      return (name, ← read (key ++ "." ++ name) entry)
  | _ => .error (.badSetting key .notObject)

def readTextTable : String → Json → Except Failure (Table String) := readTable readText

/-- A capability rule from an object with its kind and the member that the kind asks for. -/
def readRule (key : String) (v : Json) : Except Failure CapabilityRule :=
  let part (name : String) := readText (key ++ "." ++ name) ((v.member? name).getD .null)
  match v with
  | .object _ =>
    match v.member? "kind" with
    | some (.text "equality") => (part "template").map .equality
    | some (.text "ordered") => (part "capability").map .ordered
    | _ => .error (.badSetting (key ++ ".kind") .capabilityKind)
  | _ => .error (.badSetting key .capabilityForm)

def readRules : String → Json → Except Failure (Table CapabilityRule) := readTable readRule

/-- Why a value that is none of the allowed ones is refused. -/
def notAllowed (key : String) (allowed : List String) (v : Json) : Failure :=
  if v.hasPlain then .badSetting key (.noneOf allowed v.plain) else .noPlainText

def readStyle (key : String) (v : Json) : Except Failure VersionStyle :=
  let refused := .error (notAllowed key (VersionStyle.all.map VersionStyle.text) v)
  match v with
  | .text s =>
    match VersionStyle.all.find? fun style => style.text == s with
    | some style => .ok style
    | none => refused
  | _ => refused

def readLevel (key : String) (v : Json) : Except Failure Log.Level :=
  let refused := .error (notAllowed key (Log.Level.all.map Log.Level.name) v)
  match v with
  | .text s =>
    match Log.Level.ofName? s with
    | some level => .ok level
    | none => refused
  | _ => refused

def readFlag (key : String) (v : Json) : Except Failure Bool :=
  match v with
  | .bool b => .ok b
  | _ => .error (.badSetting key .notFlag)

/-- A layer with one more member. -/
def withMember (layer : SettingsLayer) (key : String) (v : Json) :
    Except Failure SettingsLayer := do
  match key with
  | "environment" => return { layer with environment := some (← readTextTable key v) }
  | "dynamicVariables" => return { layer with capabilityRules := some (← readRules key v) }
  | "packageTemplate" => return { layer with packageTemplate := some (← readText key v) }
  | "pythonAbiCapability" => return { layer with abiCapability := some (← readText key v) }
  | "versionStyle" => return { layer with versionStyle := some (← readStyle key v) }
  | "strictLocalVersions" => return { layer with strictLocal := some (← readFlag key v) }
  | "requires" => return { layer with requires := some (← readTexts key v) }
  | "suggests" => return { layer with suggests := some (← readTexts key v) }
  | "requiresExtras" => return { layer with requiresExtras := some (← readTexts key v) }
  | "suggestsExtras" => return { layer with suggestsExtras := some (← readTexts key v) }
  | "optionalDependencyTag" => return { layer with optionalTag := some (← readText key v) }
  | "pythonVersion" => return { layer with pythonVersion := some (← readText key v) }
  | "logLevel" => return { layer with logLevel := some (← readLevel key v) }
  | _ => .error (.badSetting key .unknownKey)

/-- The layer that the members of an object give, checked in their order. -/
def ofMembers (members : List (String × Json)) : Except Failure SettingsLayer :=
  members.foldlM (fun layer (key, v) => layer.withMember key v) {}

/-- The layer that a document holds. -/
def ofJson (v : Json) : Except Failure SettingsLayer :=
  match v with
  | .object members => ofMembers members
  | _ => .error (.badSetting "(root)" .document)

end SettingsLayer

def CapabilityRule.toJson : CapabilityRule → Json
  | .equality template => .object [("kind", .text "equality"), ("template", .text template)]
  | .ordered capability => .object [("kind", .text "ordered"), ("capability", .text capability)]

def textTableJson (t : Table String) : Json := .object (t.map fun (name, v) => (name, .text v))

def ruleTableJson (t : Table CapabilityRule) : Json :=
  .object (t.map fun (name, rule) => (name, rule.toJson))

/-- The members of a layer, in the order of the settings. -/
def SettingsLayer.members (l : SettingsLayer) : List (String × Json) :=
  let part (key : String) (v : Option Json) := (v.map fun v => (key, v)).toList
  part "environment" (l.environment.map textTableJson)
    ++ part "dynamicVariables" (l.capabilityRules.map ruleTableJson)
    ++ part "packageTemplate" (l.packageTemplate.map .text)
    ++ part "pythonAbiCapability" (l.abiCapability.map .text)
    ++ part "versionStyle" (l.versionStyle.map fun s => .text s.text)
    ++ part "strictLocalVersions" (l.strictLocal.map .bool)
    ++ part "requires" (l.requires.map .ofTexts)
    ++ part "suggests" (l.suggests.map .ofTexts)
    ++ part "requiresExtras" (l.requiresExtras.map .ofTexts)
    ++ part "suggestsExtras" (l.suggestsExtras.map .ofTexts)
    ++ part "optionalDependencyTag" (l.optionalTag.map .text)
    ++ part "logLevel" (l.logLevel.map fun level => .text level.name)
    ++ part "pythonVersion" (l.pythonVersion.map .text)

def SettingsLayer.toJson (l : SettingsLayer) : Json := .object l.members

namespace Settings

/-- The layer that sets everything the settings hold. -/
def asLayer (s : Settings) : SettingsLayer where
  environment := some s.environment
  capabilityRules := some s.capabilityRules
  packageTemplate := some s.packageTemplate
  abiCapability := some s.abiCapability
  versionStyle := some s.versionStyle
  strictLocal := some s.strictLocal
  requires := some s.requires
  suggests := some s.suggests
  requiresExtras := some s.requiresExtras
  suggestsExtras := some s.suggestsExtras
  optionalTag := some s.optionalTag
  logLevel := some s.logLevel
  pythonVersion := s.pythonVersion

def toJson (s : Settings) : Json := s.asLayer.toJson

end Settings

end DepClause
