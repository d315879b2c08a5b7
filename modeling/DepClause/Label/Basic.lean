import DepClause.Label.Order
import DepClause.Text.Split

/-!
# Package labels

A label is `[epoch:]version[-release]`.
-/

namespace DepClause

structure Label where
  epoch : Nat
  version : String
  release : Option String
  deriving DecidableEq, Repr

namespace Label

/-- The epoch in front of a colon, zero if there is none, and the text behind it. -/
def splitEpoch (s : List Char) : Nat × List Char :=
  match s.takeWhile Char.isDigit, s.dropWhile Char.isDigit with
  | d :: ds, ':' :: rest => (Nat.ofDigitChars 10 (d :: ds) 0, rest)
  | _, _ => (0, s)

/-- The parts of a label. A release starts behind the last hyphen. -/
def parse (text : String) : Label :=
  let (epoch, rest) := splitEpoch (Text.trim text.toList)
  match Text.splitLast? '-' rest with
  | some (version, release) => ⟨epoch, String.ofList version, some (String.ofList release)⟩
  | none => ⟨epoch, String.ofList rest, none⟩

/-- Labels by epoch, by version, and by release where both have one. -/
def compare (a b : Label) : Ordering :=
  (Ord.compare a.epoch b.epoch).then <|
    (compareVersions a.version.toList b.version.toList).then
      (match a.release, b.release with
        | some r, some s => compareVersions r.toList s.toList
        | _, _ => .eq)

/-- The order of two texts read as labels. -/
def compareTexts (a b : String) : Ordering := compare (parse a) (parse b)

end Label

end DepClause
