/-!
# Regular expressions

Regular expressions over UTF-16 units: anchors, the dot, units that stand for themselves, escaped or
not, and the star behind one of them. Everything else is not read.
-/

namespace DepClause.Regex

/-- Whether a unit ends a line. -/
def isLineBreak (u : Nat) : Bool := u == 0x0A || u == 0x0D || u == 0x2028 || u == 0x2029

/-- What stands for one unit. -/
inductive Atom where
  | any
  | unit (u : Nat)
  deriving DecidableEq, Repr

/-- Whether an atom stands for a unit. The dot stands for every unit that ends no line. -/
def Atom.takes : Atom → Nat → Bool
  | .any, u => !isLineBreak u
  | .unit v, u => v == u

/-- What one unit, or an escape and the unit behind it, says. -/
inductive Sign where
  | start
  | finish
  | star
  | atom (a : Atom)
  deriving DecidableEq, Repr

/-- A condition on a place in a text, or what leads on from it. -/
inductive Step where
  | start
  | finish
  | one (a : Atom)
  | many (a : Atom)
  deriving DecidableEq, Repr

/-- The units that stand for themselves only behind an escape. -/
def reserved : List Nat :=
  ['^', '$', '\\', '.', '*', '+', '?', '(', ')', '[', ']', '\x7b', '\x7d', '|'].map Char.toNat

def escape : Nat := '\\'.toNat

/-- What a unit says that is not escaped. -/
def sign? (u : Nat) : Option Sign :=
  if u == '^'.toNat then some .start
  else if u == '$'.toNat then some .finish
  else if u == '*'.toNat then some .star
  else if u == '.'.toNat then some (.atom .any)
  else if reserved.contains u then none
  else some (.atom (.unit u))

/-- The signs of a text that stands behind an escape or not. -/
def signs (escaped : Bool) : List Nat → Option (List Sign)
  | [] => if escaped then none else some []
  | u :: us =>
    if escaped then
      if reserved.contains u then (signs false us).map (.atom (.unit u) :: ·) else none
    else if u == escape then signs true us
    else (sign? u).bind fun s => (signs false us).map (s :: ·)

/-- The steps of signs. A star belongs to the atom in front of it. -/
def steps : List Sign → Option (List Step)
  | [] => some []
  | .start :: rest => (steps rest).map (.start :: ·)
  | .finish :: rest => (steps rest).map (.finish :: ·)
  | .atom a :: .star :: rest => (steps rest).map (.many a :: ·)
  | .atom a :: rest => (steps rest).map (.one a :: ·)
  | .star :: _ => none

/-- The regular expression of a text. -/
def read? (source : List Nat) : Option (List Step) := (signs false source).bind steps

/-- Whether `next` goes on somewhere behind units that an atom stands for. -/
def past (a : Atom) (next : Bool → List Nat → Bool) (atStart : Bool) : List Nat → Bool
  | [] => next atStart []
  | u :: us => next atStart (u :: us) || (a.takes u && past a next false us)

/-- Whether steps lead on from a place, which is the start of the whole text or not. -/
def passes : List Step → Bool → List Nat → Bool
  | [], _, _ => true
  | .start :: rest, atStart, us => atStart && passes rest atStart us
  | .finish :: rest, atStart, us => us.isEmpty && passes rest atStart us
  | .one _ :: _, _, [] => false
  | .one a :: rest, _, u :: us => a.takes u && passes rest false us
  | .many a :: rest, atStart, us => past a (passes rest) atStart us

/-- Whether steps lead on from this or a later place. -/
def occurs (regex : List Step) (atStart : Bool) : List Nat → Bool
  | [] => passes regex atStart []
  | u :: us => passes regex atStart (u :: us) || occurs regex false us

/-- Whether a regular expression is found in a text. -/
def test (regex : List Step) (text : List Nat) : Bool := occurs regex true text

end DepClause.Regex
