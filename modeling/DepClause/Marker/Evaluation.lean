import DepClause.Extra
import DepClause.Marker.Capability
import DepClause.Marker.Condition
import DepClause.Marker.Printer
import DepClause.Specifier.Containment

/-!
# Evaluating a marker

What is known at conversion time decides at once: the active extras and the variables of the
environment. What is known only on the target machine becomes a condition on its capabilities.
Connectives work on both; their right side is left alone where the left one decides.
-/

namespace DepClause

/-- The value of a marker: known now, or left to the target machine. -/
inductive Verdict where
  | known (value : Bool)
  | deferred (condition : Condition)
  deriving DecidableEq, Repr

/-- What a marker is evaluated in: variables with known values, the normal forms of the active
extras, and the capabilities that answer for the other variables. -/
structure Scope where
  environment : Table String
  extras : List String
  capabilities : Table Capability

def Scope.of (environment : Table String) (extras : List String)
    (capabilities : Table Capability) : Scope :=
  ⟨environment, extras.map Extra.normalize, capabilities⟩

/-- The operator after its two sides have changed places. -/
def Comparator.swapped? : Comparator → Option Comparator
  | .less => some .greater
  | .atMost => some .atLeast
  | .greater => some .less
  | .atLeast => some .atMost
  | .equal => some .equal
  | .notEqual => some .notEqual
  | .identical => some .identical
  | .compatible => none

/-- The operator after its two sides have changed places. -/
def MarkerOperator.swapped? : MarkerOperator → Option MarkerOperator
  | .compare op => op.swapped?.map .compare
  | .isIn => none
  | .notIn => none

namespace Comparison

/-- Whether two known texts are equal. A right side with a trailing `.*` is a prefix to match if
both sides are versions. -/
def textsEqual (left right : String) : Except Failure Bool :=
  match Specifier.stripWildcard? right.toList with
  | some version =>
    let version := String.ofList version
    if Version.isVersion left && Version.isVersion version then
      Specifier.contains ⟨.equal, version, true⟩ left
    else .ok (left == right)
  | none => .ok (left == right)

/-- Whether two known texts stand in an order: as versions if both are, else by their units. -/
def textsOrdered (op : Comparator) (left right : String) : Except Failure Bool :=
  if Version.isVersion left && Version.isVersion right then do
    if op = .compatible then
      let _ ← Specifier.upperBound (← Version.parse right) (some (op.text ++ right))
    Specifier.contains ⟨op, right, false⟩ left
  else
    match op with
    | .less => .ok (Text.compareUnits left right).isLT
    | .atMost => .ok (Text.compareUnits left right).isLE
    | .greater => .ok (Text.compareUnits left right).isGT
    | .atLeast => .ok (Text.compareUnits left right).isGE
    | _ => .error (.badOperator op.text (.notVersions left right) none)

/-- Whether two known texts meet an operator. Membership asks for a word of a list. -/
def textsMeet (left : String) (op : MarkerOperator) (right : String) : Except Failure Bool :=
  match op with
  | .isIn => .ok ((Text.listItems right).contains left)
  | .notIn => .ok (!(Text.listItems right).contains left)
  | .compare .identical => .ok (left == right)
  | .compare .equal => textsEqual left right
  | .compare .notEqual => (textsEqual left right).map (!·)
  | .compare op => textsOrdered op left right

/-- Whether the active extras meet a comparison with `extra`. -/
def meetsExtras (c : Comparison) (extras : List String) : Except Failure Bool :=
  let active := extras.contains (Extra.normalize c.literal)
  let found :=
    if c.reversed then active
    else (Text.listItems c.literal).any fun item => extras.contains (Extra.normalize item)
  match c.operator with
  | .compare .equal => .ok active
  | .compare .identical => .ok active
  | .compare .notEqual => .ok !active
  | .isIn => .ok found
  | .notIn => .ok !found
  | op => .error (.badOperator op.text .onExtra none)

/-- The condition on a capability that has the value in its name. -/
def onEquality (c : Comparison) (op : MarkerOperator) (template parameter : String) :
    Except Failure Verdict := do
  let name (value : String) := Template.fill template [(parameter, value)]
  match op with
  | .compare .equal | .compare .identical => return .deferred (.present (← name c.literal))
  | .compare .notEqual => return .deferred (.absent (← name c.literal))
  | .isIn =>
    match ← (Text.listItems c.literal).mapM name with
    | [] => return .known false
    | first :: others => return .deferred (.anyPresent first others)
  | .notIn =>
    match ← (Text.listItems c.literal).mapM name with
    | [] => return .known true
    | first :: others => return .deferred (.allAbsent first others)
  | op => .error (.badOperator op.text (.onNamed c.variableName) (some c.render))

/-- The condition on a capability whose version is compared. -/
def onOrdered (c : Comparison) (op : MarkerOperator) (name : String) : Except Failure Verdict := do
  let literal := trim c.literal
  let versioned (sign version : String) := name ++ " " ++ sign ++ " " ++ version
  match op with
  | .compare .equal | .compare .identical => return .deferred (.present (versioned "=" literal))
  | .compare .notEqual => return .deferred (.absent (versioned "=" literal))
  | .compare .compatible =>
    let v ← Version.parse literal
    let release ← Specifier.upperBound v (some c.render)
    let bound : Version := { epoch := v.epoch, release }
    return .deferred
      (.both (.present (versioned ">=" literal)) (.present (versioned "<" bound.render)))
  | .compare op => return .deferred (.present (versioned op.text literal))
  | op => .error (.badOperator op.text (.onOrdered c.variableName) (some c.render))

/-- The condition that a comparison with a variable of the target machine puts on it. -/
def onCapability (c : Comparison) (capability : Capability) : Except Failure Verdict :=
  match if c.reversed then c.operator.swapped? else some c.operator with
  | none => .error (.badOperator c.operator.text .onRight (some c.render))
  | some op =>
    match capability with
    | .equality template parameter => c.onEquality op template parameter
    | .ordered name => c.onOrdered op name

/-- The value of a comparison. A known variable comes before a capability for it. -/
def evaluate (c : Comparison) (scope : Scope) : Except Failure Verdict := do
  if c.variableName = "extra" then
    return .known (← c.meetsExtras scope.extras)
  match scope.environment.get? c.variableName with
  | some value =>
    if c.reversed then return .known (← textsMeet c.literal c.operator value)
    else return .known (← textsMeet value c.operator c.literal)
  | none =>
    match scope.capabilities.get? c.variableName with
    | some capability => c.onCapability capability
    | none => .error (.unknownVariable c.variableName)

end Comparison

namespace Verdict

/-- The conjunction with a right side that is asked for only if the left one does not decide. -/
def andThen (left : Verdict) (right : Except Failure Verdict) : Except Failure Verdict :=
  match left with
  | .known false => .ok (.known false)
  | .known true => right
  | .deferred c =>
    match right with
    | .error e => .error e
    | .ok (.known false) => .ok (.known false)
    | .ok (.known true) => .ok (.deferred c)
    | .ok (.deferred d) => .ok (.deferred (.both c d))

/-- The disjunction with a right side that is asked for only if the left one does not decide. -/
def orElse (left : Verdict) (right : Except Failure Verdict) : Except Failure Verdict :=
  match left with
  | .known true => .ok (.known true)
  | .known false => right
  | .deferred c =>
    match right with
    | .error e => .error e
    | .ok (.known true) => .ok (.known true)
    | .ok (.known false) => .ok (.deferred c)
    | .ok (.deferred d) => .ok (.deferred (.either c d))

end Verdict

namespace Marker

/-- The value of a marker. -/
def evaluate (scope : Scope) : Marker → Except Failure Verdict
  | .comparison c => c.evaluate scope
  | .and l r =>
    match l.evaluate scope with
    | .error e => .error e
    | .ok v => v.andThen (r.evaluate scope)
  | .or l r =>
    match l.evaluate scope with
    | .error e => .error e
    | .ok v => v.orElse (r.evaluate scope)

end Marker

end DepClause
