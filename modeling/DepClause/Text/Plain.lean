import DepClause.Text.Units

/-!
# Plain texts

A plain text, as files, terminals and arguments have it, holds no halves and no character that
stands for one. Where a text leaves the program, the replacement character takes the place of a
half without its other half.
-/

namespace DepClause.Text

/-- The character that a unit is on its own in a plain text. -/
def plainUnit (u : Nat) : Char :=
  if 0xD800 ≤ u ∧ u < 0xE000 then '\uFFFD' else Char.ofNat u

/-- The plain text of a run of units. -/
def plainOfUnits : List Nat → List Char
  | u :: v :: us =>
    if IsFirstHalf u ∧ IsSecondHalf v then Char.ofNat (pairNumber u v) :: plainOfUnits us
    else plainUnit u :: plainOfUnits (v :: us)
  | [u] => [plainUnit u]
  | [] => []

/-- The plain text that is shown for a text. -/
def toPlain (s : String) : String := String.ofList (plainOfUnits (units s.toList))

/-- The text that holds a plain text. -/
def ofPlain (s : String) : String :=
  String.ofList (ofUnits (s.toList.flatMap fun c => encodeNumber c.toNat))

/-- A text as it is read back after it has been shown. -/
def mended (s : String) : String := ofPlain (toPlain s)

end DepClause.Text
