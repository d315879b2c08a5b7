import DepClause.Template

/-!
# Capabilities of the target machine

Some variables are known only where the package is installed. A rule says which capability of the
target machine answers for such a variable: one that has the value in its name, or one whose
version is compared.
-/

namespace DepClause

/-- A rule as it is configured. -/
inductive CapabilityRule where
  | equality (template : String)
  | ordered (capability : String)
  deriving DecidableEq, Repr

/-- A rule that has been checked: the template has one placeholder, the parameter, and the
capability name is trimmed and not empty. -/
inductive Capability where
  | equality (template parameter : String)
  | ordered (name : String)
  deriving DecidableEq, Repr

namespace CapabilityRule

/-- The rules that hold unless others are configured. -/
def defaults : Table CapabilityRule :=
  [("platform_machine", .equality "python(\x7barch\x7d)"), ("platform_release", .ordered "kernel"),
   ("python_version", .ordered "python(abi)")]

def resolve (variableName : String) : CapabilityRule → Except Failure Capability
  | .ordered capability =>
    let name := trim capability
    if name.isEmpty then
      .error (.badSetting ("dynamicVariables." ++ variableName) .emptyCapability)
    else .ok (.ordered name)
  | .equality template =>
    match Template.placeholders template with
    | [parameter] => .ok (.equality template parameter)
    | names =>
      .error (.badSetting ("dynamicVariables." ++ variableName)
        (.placeholders names.length template))

/-- The capabilities that a table of rules gives, checked in order. -/
def resolveAll (rules : Table CapabilityRule) : Except Failure (Table Capability) :=
  rules.mapM fun (variableName, rule) => do return (variableName, ← rule.resolve variableName)

end CapabilityRule

end DepClause
