import DepClause.Clause
import DepClause.Log.Entry
import DepClause.Marker.Evaluation
import DepClause.Requirement

/-!
# Converting requirements

A requirement becomes one dependency clause, a conditional one if its marker leaves something to
the target machine, and nothing if its marker is false.
-/

namespace DepClause

structure Converter where
  environment : Table String
  capabilities : Table Capability
  /-- The capability of a package: a template with the placeholder `name`. -/
  packageTemplate : String
  style : ClauseStyle

namespace Converter

/-- The capability that stands for a package. -/
def capabilityName (c : Converter) (package : String) : Except Failure String :=
  Template.fill c.packageTemplate [("name", package)]

/-- The value of the marker of a requirement, true if it has none. -/
def verdict (c : Converter) (r : Requirement) (extras : List String) : Except Failure Verdict :=
  match r.marker with
  | none => .ok (.known true)
  | some m => m.evaluate (.of c.environment extras c.capabilities)

/-- The capability of a requirement with its version clauses. -/
def capability (c : Converter) (r : Requirement) : Except Failure String := do
  c.style.capability (← c.capabilityName r.name) r.specifiers

/-- The clause of a requirement under the active extras, none if its marker is false. -/
def convertOne (c : Converter) (text : String) (extras : List String) :
    Logged Failure (Option String) := do
  let r ← Logged.of (Requirement.parse text)
  match ← Logged.of (c.verdict r extras) with
  | .known false =>
    let marker := (r.marker.map fun m => ("marker", Json.text m.render)).toList
    Logged.note .debug "마커 조건 불일치로 의존성 제외" (("requirement", .text r.name) :: marker)
    return none
  | .known true => return some (← Logged.of (c.capability r))
  | .deferred condition =>
    let capability ← Logged.of (c.capability r)
    Logged.note .debug "설치 시점 조건부 의존성"
      [("requirement", .text r.name), ("condition", .text condition.render)]
    return some ("(" ++ capability ++ " " ++ condition.render ++ ")")

/-- The clauses of a list of requirements, in their order. -/
def convert (c : Converter) (extras : List String) :
    List String → Logged Failure (List String)
  | [] => pure []
  | text :: texts => do
    let clause ← c.convertOne text extras
    return clause.toList ++ (← c.convert extras texts)

end Converter

end DepClause
