import DepClause.Regex
import DepClause.Text.Units

/-!
# Globs

In a pattern a star stands for any run of UTF-16 units and a question mark for one, both without
line breaks; every other unit stands for itself. A pattern is translated into a regular expression.
-/

namespace DepClause.Glob

def star : Nat := '*'.toNat

def question : Nat := '?'.toNat

/-- The units that are escaped in a regular expression. -/
def escaped : List Nat :=
  ['\\', '^', '$', '.', '|', '+', '(', ')', '[', ']', '\x7b', '\x7d'].map Char.toNat

/-- What a unit of a pattern becomes. -/
def unitSource (p : Nat) : List Nat :=
  if p == star then ['.'.toNat, '*'.toNat]
  else if p == question then ['.'.toNat]
  else if escaped.contains p then [Regex.escape, p]
  else [p]

/-- The regular expression that a pattern becomes. It is for whole texts. -/
def source (pattern : List Nat) : List Nat :=
  '^'.toNat :: (pattern.flatMap unitSource ++ ['$'.toNat])

/-- Whether a text matches a pattern. -/
def isMatch (pattern text : String) : Bool :=
  match Regex.read? (source (Text.units pattern.toList)) with
  | some regex => Regex.test regex (Text.units text.toList)
  | none => false

/-- The names that match at least one pattern, in their order. -/
def select (patterns names : List String) : List String :=
  names.filter fun name => patterns.any fun pattern => isMatch pattern name

end DepClause.Glob
