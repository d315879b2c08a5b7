import DepClause.Text.LowerCase

/-!
# Paths

Paths have their parts between slashes. A point stands for the directory itself and two points for
the one above it.
-/

namespace DepClause.Path

def parts (path : String) : List String := (path.toList.splitOn '/').map String.ofList

/-- The parts without points and without what two points take back. In a path from the root two
points at the start have nothing above them. -/
def normalParts (fromRoot : Bool) : List String → List String → List String
  | acc, [] => acc.reverse
  | acc, p :: ps =>
    if p == "" || p == "." then normalParts fromRoot acc ps
    else if p == ".." then
      match acc with
      | [] => normalParts fromRoot (if fromRoot then [] else [p]) ps
      | q :: rest => normalParts fromRoot (if q == ".." then p :: acc else rest) ps
    else normalParts fromRoot (p :: acc) ps

/-- A name below a directory, as a path in normal form. -/
def join (directory name : String) : String :=
  let whole := if directory.isEmpty then name else directory ++ "/" ++ name
  let fromRoot := whole.startsWith "/"
  match (if fromRoot then "/" else "") ++ "/".intercalate (normalParts fromRoot [] (parts whole)) with
  | "" => "."
  | path => path

/-- The ending of the last part of a path from its last point on. A point that starts the part
begins no ending. -/
def ending (path : String) : String :=
  match ((parts path).filter (· != "")).getLast? with
  | none | some ".." => ""
  | some name =>
    let cs := name.toList
    let size := (cs.reverse.takeWhile (· != '.')).length
    if size + 1 < cs.length then String.ofList (cs.drop (cs.length - size - 1)) else ""

/-- Whether a path names a data document. -/
def isDocument (path : String) : Bool := Text.lowerCase (ending path) == ".json"

end DepClause.Path
