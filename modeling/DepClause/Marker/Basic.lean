import DepClause.Specifier.Basic

/-!
# Environment markers

A marker is a tree of comparisons between a variable of the environment and a literal.
-/

namespace DepClause

/-- The operators of markers: those of specifiers and membership. -/
inductive MarkerOperator where
  | compare (op : Comparator)
  | isIn
  | notIn
  deriving DecidableEq, Repr

def MarkerOperator.text : MarkerOperator → String
  | .compare op => op.text
  | .isIn => "in"
  | .notIn => "not in"

/-- A comparison. `reversed` says that the literal stood on the left. -/
structure Comparison where
  variableName : String
  operator : MarkerOperator
  literal : String
  reversed : Bool
  deriving DecidableEq, Repr

inductive Marker where
  | comparison (c : Comparison)
  | and (left right : Marker)
  | or (left right : Marker)
  deriving DecidableEq, Repr

end DepClause
