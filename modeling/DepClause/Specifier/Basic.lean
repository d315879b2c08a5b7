import DepClause.Failure
import DepClause.Text.Blank
import DepClause.Version.Order
import DepClause.Version.Printer

/-!
# Version specifiers

A specifier is a comparison operator and a version, the latter kept as it was written. A list of
specifiers separated by commas asks for all of them.
-/

namespace DepClause

/-- The comparison operators. -/
inductive Comparator where
  | compatible
  | identical
  | equal
  | notEqual
  | atMost
  | atLeast
  | less
  | greater
  deriving DecidableEq, Repr

namespace Comparator

def text : Comparator → String
  | .compatible => "~="
  | .identical => "==="
  | .equal => "=="
  | .notEqual => "!="
  | .atMost => "<="
  | .atLeast => ">="
  | .less => "<"
  | .greater => ">"

/-- All operators. One that starts with another stands before it. -/
def all : List Comparator :=
  [.compatible, .identical, .equal, .notEqual, .atMost, .atLeast, .less, .greater]

def ofText? (s : String) : Option Comparator := all.find? fun op => op.text == s

/-- The operator in front of a text and what follows it. -/
def front? (s : List Char) : Option (Comparator × List Char) :=
  all.findSome? fun op =>
    let cs := op.text.toList
    if cs.isPrefixOf s then some (op, s.drop cs.length) else none

end Comparator

/-- A comparison with a version. `wildcard` stands for a trailing `.*`, which is not part of the
version. -/
structure Specifier where
  operator : Comparator
  version : String
  wildcard : Bool
  deriving DecidableEq, Repr

namespace Specifier

def render (s : Specifier) : String :=
  s.operator.text ++ s.version ++ (if s.wildcard then ".*" else "")

/-- The release that a compatible version must stay below: the last number is dropped and the
number before it grows by one. `input` is what a failure names. -/
def upperBound (v : Version) (input : Option String) : Except Failure (List Nat) :=
  match v.release.dropLast.reverse with
  | [] => .error (.badOperator Comparator.compatible.text .shortRelease input)
  | n :: ns => .ok (ns.reverse ++ [n + 1])

/-- The operator and version of a trimmed text: the first operator behind which, up to blanks,
stands a version text without blanks. -/
def split? (s : List Char) : Option (Comparator × List Char) :=
  Comparator.all.findSome? fun op =>
    let cs := op.text.toList
    let rest := Text.trimLeft (s.drop cs.length)
    if cs.isPrefixOf s && !rest.isEmpty && rest.all (!Text.isBlank ·) then some (op, rest)
    else none

/-- What stands for an operator in a text that has none: everything in front of the first word
character, blank, point or star. -/
def writtenOperator (s : List Char) : List Char :=
  s.takeWhile fun c => !(c.isAlphanum || c == '_' || Text.isBlank c || c == '.' || c == '*')

/-- A version text without its trailing `.*`, if it has one. -/
def stripWildcard? (s : List Char) : Option (List Char) :=
  match s.reverse with
  | '*' :: '.' :: rest => some rest.reverse
  | _ => none

/-- The specifier that a text writes. `===` takes any text, the other operators a version, and only
`==` and `!=` a trailing `.*`. -/
def parse (text : String) : Except Failure Specifier := do
  let trimmed := Text.trim text.toList
  let input := some (String.ofList trimmed)
  match split? trimmed with
  | none => .error (.badOperator (String.ofList (writtenOperator trimmed)) .unknown input)
  | some (op, written) =>
    if op = .identical then return ⟨op, String.ofList written, false⟩
    let wildcard := stripWildcard? written
    if wildcard.isSome ∧ op ≠ .equal ∧ op ≠ .notEqual then
      .error (.badOperator op.text .wildcard input)
    let version := String.ofList (wildcard.getD written)
    let v ← Version.parse version
    if op = .compatible then
      let _ ← upperBound v input
    return ⟨op, version, wildcard.isSome⟩

/-- The specifiers between the commas of a text; empty parts do not count. -/
def parseAll (text : String) : Except Failure (List Specifier) :=
  (((text.toList.splitOn ',').map Text.trim).filter (!·.isEmpty)).mapM fun part =>
    parse (String.ofList part)

def renderAll (specifiers : List Specifier) : String :=
  ",".intercalate (specifiers.map render)

end Specifier

end DepClause
