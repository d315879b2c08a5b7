import DepClause.Text.Blank
import DepClause.Text.LowerCase

/-!
# Extras

Names of extras are compared in a normal form.
-/

namespace DepClause.Extra

/-- A text with each run of the characters `-`, `_` and `.` written as one hyphen. -/
def joinRuns : List Char → List Char
  | [] => []
  | c :: cs =>
    if isJoiner c then
      match cs with
      | d :: _ => if isJoiner d then joinRuns cs else '-' :: joinRuns cs
      | [] => ['-']
    else c :: joinRuns cs
where
  isJoiner (c : Char) : Bool := c == '-' || c == '_' || c == '.'

/-- The normal form of the name of an extra. -/
def normalize (name : String) : String :=
  String.ofList (joinRuns (Text.lowerCase (trim name)).toList)

end DepClause.Extra
