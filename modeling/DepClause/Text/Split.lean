/-!
# Splitting at a character

The texts before and behind the first or the last occurrence of a character.
-/

namespace DepClause.Text

/-- The texts before and behind the first occurrence of a character. -/
def splitFirst? (sep : Char) : List Char → Option (List Char × List Char)
  | [] => none
  | c :: cs =>
    if c = sep then some ([], cs)
    else (splitFirst? sep cs).map fun (before, behind) => (c :: before, behind)

/-- The texts before and behind the last occurrence of a character. -/
def splitLast? (sep : Char) : List Char → Option (List Char × List Char)
  | [] => none
  | c :: cs =>
    match splitLast? sep cs with
    | some (before, behind) => some (c :: before, behind)
    | none => if c = sep then some ([], cs) else none

end DepClause.Text
