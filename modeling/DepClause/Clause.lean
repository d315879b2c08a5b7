import DepClause.Label.Encoding
import DepClause.Specifier.Basic

/-!
# Dependency clauses

A clause compares the version of a capability with a version text. A specifier becomes one clause; a
compatible version becomes two. There is no comparison with a prefix, so a wildcard is compared with
its prefix itself.
-/

namespace DepClause

/-- How the version of a capability stands to the version text of a clause. -/
inductive Relation where
  | equal
  | less
  | atMost
  | greater
  | atLeast
  deriving DecidableEq, Repr

def Relation.text : Relation → String
  | .equal => "="
  | .less => "<"
  | .atMost => "<="
  | .greater => ">"
  | .atLeast => ">="

/-- A condition on the version of a capability: one relation, or to lie below or above a version. -/
inductive Clause where
  | holds (relation : Relation) (version : String)
  | apart (version : String)
  deriving DecidableEq, Repr

/-- The text of a clause on a named capability. -/
def Clause.render (name : String) : Clause → String
  | .holds relation version => name ++ " " ++ relation.text ++ " " ++ version
  | .apart version => name ++ " < " ++ version ++ " or " ++ name ++ " > " ++ version

/-- How versions are written in clauses: as they were, or as labels in version order. -/
inductive VersionStyle where
  | literal
  | rpm
  deriving DecidableEq, Repr

def VersionStyle.text : VersionStyle → String
  | .literal => "literal"
  | .rpm => "rpm"

def VersionStyle.all : List VersionStyle := [.literal, .rpm]

structure ClauseStyle where
  versions : VersionStyle := .literal
  strictLocal : Bool := false
  deriving DecidableEq, Repr

namespace ClauseStyle

/-- A version text as a clause can hold it: without blanks at its ends and with underscores for
hyphens. -/
def literalVersion (text : String) : String :=
  String.ofList ((Text.trim text.toList).map fun c => if c = '-' then '_' else c)

/-- The text of a written version. -/
def version (style : ClauseStyle) (text : String) : Except Failure String := do
  match style.versions with
  | .rpm => Version.encodeLiteral style.strictLocal text
  | .literal =>
    let _ ← Version.parse text
    return literalVersion text

/-- The text of the version that a compatible version must stay below. -/
def upperBound (style : ClauseStyle) (s : Specifier) : Except Failure String := do
  let v ← Version.parse s.version
  let release ← Specifier.upperBound v (some s.render)
  let bound : Version := { epoch := v.epoch, release }
  return match style.versions with
    | .rpm => bound.label
    | .literal => bound.render

/-- The clauses of one specifier. -/
def clauses (style : ClauseStyle) (s : Specifier) : Except Failure (List Clause) := do
  let related (relation : Relation) : Except Failure (List Clause) := do
    return [.holds relation (← style.version s.version)]
  match s.operator with
  | .identical => return [.holds .equal (literalVersion s.version)]
  | .equal => related .equal
  | .notEqual => return [.apart (← style.version s.version)]
  | .less => related .less
  | .atMost => related .atMost
  | .greater => related .greater
  | .atLeast => related .atLeast
  | .compatible => return (← related .atLeast) ++ [.holds .less (← style.upperBound s)]

/-- The clauses of a list of specifiers, in their order. -/
def allClauses (style : ClauseStyle) (specifiers : List Specifier) :
    Except Failure (List Clause) := do
  return (← specifiers.mapM style.clauses).flatten

/-- A capability with its version clauses, or its name alone if there are none. -/
def capability (style : ClauseStyle) (name : String) (specifiers : List Specifier) :
    Except Failure String := do
  match ← style.allClauses specifiers with
  | [] => return name
  | cs => return ", ".intercalate (cs.map (Clause.render name))

end ClauseStyle

end DepClause
