/-!
# Conditions

What a marker leaves to the machine on which the package is installed: whether it has certain
capabilities.
-/

namespace DepClause

inductive Condition where
  | present (capability : String)
  | absent (capability : String)
  | both (left right : Condition)
  | either (left right : Condition)
  deriving DecidableEq, Repr

namespace Condition

/-- The text of a condition. It has no parentheses: both connectives just join the two texts. -/
def render : Condition → String
  | .present c => "with " ++ c
  | .absent c => "without " ++ c
  | .both l r => l.render ++ " " ++ r.render
  | .either l r => l.render ++ " or " ++ r.render

/-- At least one of the capabilities is present. -/
def anyPresent (first : String) (others : List String) : Condition :=
  others.foldl (fun c name => .either c (.present name)) (.present first)

/-- None of the capabilities is present. -/
def allAbsent (first : String) (others : List String) : Condition :=
  others.foldl (fun c name => .both c (.absent name)) (.absent first)

end Condition

end DepClause
