import DepClause.Label.Basic
import DepClause.Version.Printer
import DepClause.Version.Reader

/-!
# The label of a version

`Version.label` writes a version so that the order of labels is the order of versions. What comes
before its release is marked by a tilde, a local part by a caret. A release loses its trailing
zeros but keeps two numbers, so `1`, `1.0` and `1.0.0` share one label. A local part that mixes
letters and digits is cut into runs by the order of labels, which strict encoding refuses.
-/

namespace DepClause.Version

/-- A release of at least two numbers without further trailing zeros. -/
def labelRelease (release : List Nat) : List Nat :=
  match trimZeros 2 release with
  | [] => [0, 0]
  | [n] => [n, 0]
  | ns => ns

/-- The mark of a development version: two tildes put a development version of the release itself
before all its pre-releases. -/
def labelDev (v : Version) : List Char :=
  match v.dev with
  | none => []
  | some n =>
    if v.pre.isSome || v.post.isSome then "~dev".toList ++ numeral n
    else "~~dev".toList ++ numeral n

def labelChars (v : Version) : List Char :=
  (if v.epoch = 0 then [] else numeral v.epoch ++ [':'])
    ++ releaseChars (labelRelease v.release)
    ++ (match v.pre with | some p => '~' :: p.chars | none => [])
    ++ (match v.post with | some n => ".post".toList ++ numeral n | none => [])
    ++ v.labelDev
    ++ (match v.localParts with | some parts => '^' :: localChars parts | none => [])

/-- The label of a version. -/
def label (v : Version) : String := String.ofList v.labelChars

/-- The first local part that has a digit and is no number. -/
def mixedPart? (v : Version) : Option String :=
  (v.localParts.getD []).findSome? fun
    | .word w => if w.toList.any Char.isDigit then some w else none
    | .number _ => none

/-- The label of a version that `text` writes. Strict encoding refuses a mixed local part. -/
def encode (strict : Bool) (text : String) (v : Version) : Except Failure String :=
  match if strict then v.mixedPart? else none with
  | some part => .error (.mixedLocal text part)
  | none => .ok v.label

/-- The label of the version that a literal writes. -/
def encodeLiteral (strict : Bool) (text : String) : Except Failure String := do
  encode strict text (← parse text)

end DepClause.Version
