import DepClause.Command.Session
import DepClause.Label.Encoding

/-!
# Versions on the command line

The commands that show the labels of versions, and whether the order of the labels is the order of
the versions.
-/

namespace DepClause.Command

/-- A literal with its version and its label. -/
structure Labelled where
  literal : String
  version : Version
  label : String
  deriving DecidableEq, Repr

def labelled (strictLocal : Bool) (literal : String) : Except Failure Labelled := do
  let version ← Version.parse literal
  return ⟨literal, version, ← version.encode strictLocal literal⟩

/-- Prints the normal forms and labels of versions. -/
def printLabels (versions : List String) (strictLocal : Bool) : Run Unit := do
  let rows ← Run.check (versions.mapM (labelled strictLocal))
  Run.print <| .table ["버전", "정규화", "RPM 레이블"] <|
    rows.map fun row => [row.literal, row.version.render, row.label]

/-- Whether each item but the first stands to the one before it as their labels do. -/
def agreements : List Labelled → List Bool
  | a :: b :: rest =>
    (Version.compare a.version b.version == Label.compareTexts a.label b.label)
      :: agreements (b :: rest)
  | _ => []

/-- The versions in order, with their labels. -/
def sorted (versions : List String) (strictLocal : Bool) : Except Failure (List Labelled) := do
  (← Version.sortLiterals versions).mapM (labelled strictLocal)

/-- The number of neighbours whose labels do not stand as the versions do. -/
def mismatches (items : List Labelled) : Nat := (agreements items).count false

/-- Prints versions in order and compares the order of their labels. The answer says whether the
orders agree. -/
def printSorted (versions : List String) (strictLocal : Bool) : Run Bool := do
  let items ← Run.check (sorted versions strictLocal)
  let marks := "-" :: (agreements items).map fun agrees => if agrees then "✓" else "✗"
  let rows := (items.zip marks).zipIdx.map fun ((item, mark), i) =>
    [toString (i + 1), item.literal, item.label, mark]
  Run.print (.table ["#", "버전", "RPM 레이블", "RPM 순서"] rows)
  match mismatches items with
  | 0 =>
    Run.line "\n✓ RPM 순서가 PEP 440 순서와 일치합니다"
    return true
  | n =>
    Run.line ("\nRPM 순서가 다른 항목: " ++ toString n ++ "개")
    return false

end DepClause.Command
