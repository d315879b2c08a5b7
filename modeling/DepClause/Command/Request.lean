import DepClause.Command.Arguments

/-!
# Requests

What a command line asks for. The program knows the commands `convert`, `encode`, `sort`, `tags` and
`config`, the last with four commands of its own.
-/

namespace DepClause.Command

/-- The options of every command. -/
structure Globals where
  debug : Bool := false
  logFile : Bool := false
  deriving DecidableEq, Repr

/-- The options of the commands that convert. A text left out is empty. -/
structure ConversionOptions where
  settingsFile : String := ""
  labels : Bool := false
  strictLocal : Bool := false
  template : String := ""
  environment : List String := []
  deriving DecidableEq, Repr

inductive Action where
  | convert (requirements : List String) (options : ConversionOptions) (file extras tag : String)
  | encode (versions : List String) (strictLocal : Bool)
  | sort (versions : List String) (strictLocal : Bool)
  | tags (metadata : String) (options : ConversionOptions) (buildRequires : List String)
      (pythonVersion : String)
  | getSetting (key : String)
  | setSetting (key value : String)
  | listSettings
  | resetSettings
  deriving DecidableEq, Repr

inductive Request where
  | overview
  | version
  | help (status : Nat)
  | run (globals : Globals) (action : Action)
  deriving DecidableEq, Repr

/-- A fault of usage. One that the program itself finds, and none of its commands, is reported
twice. -/
structure UsageError where
  fault : UsageFault
  ofProgram : Bool
  deriving DecidableEq, Repr

/-- An operand that a command takes; a variadic one takes all that are left. -/
structure ArgumentSpec where
  name : String
  required : Bool := true
  deriving DecidableEq, Repr

/-- A command with its options and operands. -/
structure CommandSpec where
  name : String
  options : List OptionSpec := []
  arguments : List ArgumentSpec := []
  /-- What the sorted arguments ask for. -/
  action : Scanned → List String → Action

/-! ### Sorted options -/

namespace Scanned

def hasFlag (s : Scanned) (name : String) : Bool := s.taken.any fun t => t.1 == name

/-- The values of an option, in order. -/
def values (s : Scanned) (name : String) : List String :=
  s.taken.filterMap fun t => if t.1 == name then t.2 else none

/-- The last value of an option, empty if it is not given. -/
def value (s : Scanned) (name : String) : String := ((s.values name).getLast?).getD ""

def conversionOptions (s : Scanned) : ConversionOptions where
  settingsFile := s.value "config"
  labels := s.hasFlag "rpm-versions"
  strictLocal := s.hasFlag "strict-local"
  template := s.value "template"
  environment := s.values "env"

end Scanned

/-! ### The commands -/

def helpOption : OptionSpec := { letter := some 'h', name := "help" }

def programOptions : List OptionSpec :=
  [{ letter := some 'v', name := "version" }, { name := "debug" }, { name := "log-file" }]

def strictOption : OptionSpec := { name := "strict-local" }

def conversionSpecs : List OptionSpec :=
  [{ letter := some 'c', name := "config", valueName := some "path" }, { name := "rpm-versions" },
   strictOption, { name := "template", valueName := some "template" },
   { name := "env", valueName := some "key=value" }]

def programCommands : List CommandSpec :=
  [{ name := "convert"
     options := conversionSpecs ++
       [{ letter := some 'f', name := "file", valueName := some "path" },
        { letter := some 'e', name := "extras", valueName := some "list" },
        { letter := some 't', name := "tag", valueName := some "name" }]
     arguments := [⟨"requirements", false⟩]
     action := fun s operands =>
       .convert operands s.conversionOptions (s.value "file") (s.value "extras") (s.value "tag") },
   { name := "encode"
     options := [strictOption]
     arguments := [⟨"versions", true⟩]
     action := fun s operands => .encode operands (s.hasFlag "strict-local") },
   { name := "sort"
     options := [strictOption]
     arguments := [⟨"versions", true⟩]
     action := fun s operands => .sort operands (s.hasFlag "strict-local") },
   { name := "tags"
     options := conversionSpecs ++
       [{ letter := some 'b', name := "build-requires", valueName := some "requirement" },
        { letter := some 'p', name := "python-version", valueName := some "specifier" }]
     arguments := [⟨"metadata", true⟩]
     action := fun s operands =>
       .tags (operands.headD "") s.conversionOptions (s.values "build-requires")
         (s.value "python-version") }]

def settingsCommands : List CommandSpec :=
  [{ name := "get"
     arguments := [⟨"key", false⟩]
     action := fun _ operands => .getSetting (operands.headD "") },
   { name := "set"
     arguments := [⟨"key", true⟩, ⟨"value", true⟩]
     action := fun _ operands => .setSetting (operands.headD "") ((operands.drop 1).headD "") },
   { name := "list", action := fun _ _ => .listSettings },
   { name := "reset", action := fun _ _ => .resetSettings }]

def isHelpFlag (arg : List Char) : Bool := helpOption.isNamed arg

/-- The first required operand that is not there. -/
def missingArgument? (arguments : List ArgumentSpec) (count : Nat) : Option String :=
  ((arguments.drop count).find? fun a => a.required).map ArgumentSpec.name

/-- The request that a command makes of its operands and of the arguments that the commands above it
did not know. `outer` holds their options. -/
def readAction (spec : CommandSpec) (outer : List OptionSpec) (globals : Globals)
    (operands unknown : List (List Char)) : Except UsageFault Request := do
  let s ← scan spec.options false unknown
  let operands := (operands ++ s.operands).map String.ofList
  if s.unknown.any isHelpFlag then return .help 0
  match s.unknown with
  | flag :: _ =>
    let flag := String.ofList flag
    .error (.unknownOption flag (similarFlags flag (spec.options ++ outer)))
  | [] =>
    match missingArgument? spec.arguments operands.length with
    | some name => .error (.missingArgument name)
    | none => return .run globals (spec.action s operands)

/-- What becomes of arguments that name none of the commands of a group. -/
def withoutCommand (names : List String) (options : List OptionSpec) (emptyStatus : Nat)
    (operands unknown : List (List Char)) : Except UsageFault Request :=
  if operands.head? == some "help".toList || unknown.any isHelpFlag then .ok (.help 0)
  else
    match operands, unknown with
    | name :: _, _ =>
      let name := String.ofList name
      .error (.unknownCommand name (similar name (names ++ ["help"])))
    | [], flag :: _ =>
      let flag := String.ofList flag
      .error (.unknownOption flag (similarFlags flag options))
    | [], [] => .ok (.help emptyStatus)

/-- The command that the first operand names, and the other operands. -/
def findCommand? (commands : List CommandSpec) :
    List (List Char) → Option (CommandSpec × List (List Char))
  | name :: rest => (commands.find? fun c => c.name.toList == name).map (·, rest)
  | [] => none

/-- The request of a command line. -/
def parse (args : List String) : Except UsageError Request :=
  let own (fault : UsageFault) : UsageError := ⟨fault, true⟩
  let ofCommand (fault : UsageFault) : UsageError := ⟨fault, false⟩
  if args.isEmpty then .ok .overview
  else
    match scan programOptions false (args.map String.toList) with
    | .error fault => .error (own fault)
    | .ok s =>
      let globals : Globals := ⟨s.hasFlag "debug", s.hasFlag "log-file"⟩
      let options := programOptions ++ [helpOption]
      let groupName := "config"
      if s.hasFlag "version" then .ok .version
      else if s.operands.head? == some groupName.toList then
        let operands := s.operands.drop 1
        match findCommand? settingsCommands operands with
        | some (spec, operands) =>
          (readAction spec options globals operands s.unknown).mapError ofCommand
        | none =>
          (withoutCommand (settingsCommands.map CommandSpec.name) options 1 operands
            s.unknown).mapError ofCommand
      else
        match findCommand? programCommands s.operands with
        | some (spec, operands) =>
          (readAction spec options globals operands s.unknown).mapError ofCommand
        | none =>
          (withoutCommand (programCommands.map CommandSpec.name ++ [groupName]) options 0 s.operands
            s.unknown).mapError own

end DepClause.Command
