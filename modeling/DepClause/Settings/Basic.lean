import DepClause.DependencyTags

/-!
# Settings

The settings of a conversion, their defaults, and the layers that replace some of them. A layer
adds to the two tables name by name and replaces everything else.
-/

namespace DepClause

structure Settings where
  /-- Variables with values known at conversion time. -/
  environment : Table String
  capabilityRules : Table CapabilityRule
  packageTemplate : String
  abiCapability : String
  versionStyle : VersionStyle
  strictLocal : Bool
  requires : List String
  suggests : List String
  requiresExtras : List String
  suggestsExtras : List String
  optionalTag : String
  logLevel : Log.Level
  pythonVersion : Option String
  deriving DecidableEq, Repr

/-- The settings that a file or the command line gives. -/
structure SettingsLayer where
  environment : Option (Table String) := none
  capabilityRules : Option (Table CapabilityRule) := none
  packageTemplate : Option String := none
  abiCapability : Option String := none
  versionStyle : Option VersionStyle := none
  strictLocal : Option Bool := none
  requires : Option (List String) := none
  suggests : Option (List String) := none
  requiresExtras : Option (List String) := none
  suggestsExtras : Option (List String) := none
  optionalTag : Option String := none
  logLevel : Option Log.Level := none
  pythonVersion : Option String := none
  deriving DecidableEq, Repr

namespace Settings

/-- The settings for packages of a Linux distribution. -/
def defaults : Settings where
  environment :=
    [("os_name", "posix"), ("sys_platform", "linux"), ("platform_system", "Linux"),
     ("implementation_name", "cpython"), ("platform_python_implementation", "CPython")]
  capabilityRules := CapabilityRule.defaults
  packageTemplate := "python3-\x7bname\x7d"
  abiCapability := "python(abi)"
  versionStyle := .literal
  strictLocal := false
  requires := []
  suggests := []
  requiresExtras := []
  suggestsExtras := []
  optionalTag := "Suggests"
  logLevel := .info
  pythonVersion := none

/-- The settings with a layer over them. -/
def merge (s : Settings) (layer : SettingsLayer) : Settings where
  environment := s.environment.merge (layer.environment.getD [])
  capabilityRules := s.capabilityRules.merge (layer.capabilityRules.getD [])
  packageTemplate := layer.packageTemplate.getD s.packageTemplate
  abiCapability := layer.abiCapability.getD s.abiCapability
  versionStyle := layer.versionStyle.getD s.versionStyle
  strictLocal := layer.strictLocal.getD s.strictLocal
  requires := layer.requires.getD s.requires
  suggests := layer.suggests.getD s.suggests
  requiresExtras := layer.requiresExtras.getD s.requiresExtras
  suggestsExtras := layer.suggestsExtras.getD s.suggestsExtras
  optionalTag := layer.optionalTag.getD s.optionalTag
  logLevel := layer.logLevel.getD s.logLevel
  pythonVersion := layer.pythonVersion.orElse fun _ => s.pythonVersion

def clauseStyle (s : Settings) : ClauseStyle := ⟨s.versionStyle, s.strictLocal⟩

/-- The converter that the settings describe. -/
def converter (s : Settings) : Except Failure Converter := do
  return {
    environment := s.environment
    capabilities := ← CapabilityRule.resolveAll s.capabilityRules
    packageTemplate := s.packageTemplate
    style := s.clauseStyle }

def tagPolicy (s : Settings) : TagPolicy where
  requires := s.requires
  suggests := s.suggests
  requiresExtras := s.requiresExtras
  suggestsExtras := s.suggestsExtras
  optionalTag := s.optionalTag
  pythonVersion := s.pythonVersion
  abiCapability := s.abiCapability
  style := s.clauseStyle

end Settings

end DepClause
