import DepClause.Marker.Basic

/-!
# Writing a marker

Parentheses stand only around an `or` below an `and`. Literals are put between double quotes as
they are.
-/

namespace DepClause

def Comparison.render (c : Comparison) : String :=
  let literal := "\"" ++ c.literal ++ "\""
  if c.reversed then literal ++ " " ++ c.operator.text ++ " " ++ c.variableName
  else c.variableName ++ " " ++ c.operator.text ++ " " ++ literal

namespace Marker

def isOr : Marker → Bool
  | .or _ _ => true
  | _ => false

/-- The text of a part of an `and`. -/
def enclose (isOr : Bool) (text : String) : String :=
  if isOr then "(" ++ text ++ ")" else text

def render : Marker → String
  | .comparison c => c.render
  | .and l r => enclose l.isOr l.render ++ " and " ++ enclose r.isOr r.render
  | .or l r => l.render ++ " or " ++ r.render

end Marker

end DepClause
