import DepClause.Text.Blank

/-!
# The order of package labels

A package manager reads a version label as a row of runs: tildes, carets, letter runs and digit
runs, with all other characters between them only separating. `compareVersions` walks along two
labels at once and stops at the first runs that differ.
-/

namespace DepClause.Label

/-- What stands in front of a text. -/
inductive Lead where
  | tilde
  | stop
  | caret
  | letter
  | digit
  deriving DecidableEq, Repr

/-- A tilde comes before the end of a text, which comes before everything else; a caret comes right
behind the end, then letters, then digits. -/
def Lead.rank : Lead → Nat
  | .tilde => 0
  | .stop => 1
  | .caret => 2
  | .letter => 3
  | .digit => 4

/-- Whether a character only separates runs. -/
def separates (c : Char) : Bool := !(c.isAlphanum || c == '~' || c == '^')

def skipSeparators (s : List Char) : List Char := s.dropWhile separates

/-- What stands in front of a text whose separators have been skipped. -/
def lead : List Char → Lead
  | [] => .stop
  | c :: _ =>
    if c == '~' then .tilde else if c == '^' then .caret
    else if c.isDigit then .digit else .letter

def digitRun (s : List Char) : Nat := Nat.ofDigitChars 10 (s.takeWhile Char.isDigit) 0

def letterRun (s : List Char) : List Nat := (s.takeWhile Char.isAlpha).map Char.toNat

theorem length_pos_of_lead {s : List Char} (h : lead s ≠ .stop) : 0 < s.length := by
  cases s with
  | nil => exact absurd rfl h
  | cons c cs => simp

theorem length_skipSeparators_le (s : List Char) : (skipSeparators s).length ≤ s.length :=
  Text.length_dropWhile_le separates s

/-- Two version texts of labels, run by run: digit runs by their values, letter runs by their
letters. -/
def compareVersions (a b : List Char) : Ordering :=
  let s := skipSeparators a
  let t := skipSeparators b
  match _hs : lead s, _ht : lead t with
  | .tilde, .tilde => compareVersions (s.drop 1) (t.drop 1)
  | .caret, .caret => compareVersions (s.drop 1) (t.drop 1)
  | .stop, .stop => .eq
  | .digit, .digit =>
    (compare (digitRun s) (digitRun t)).then
      (compareVersions ((s.drop 1).dropWhile Char.isDigit) ((t.drop 1).dropWhile Char.isDigit))
  | .letter, .letter =>
    (compare (letterRun s) (letterRun t)).then
      (compareVersions ((s.drop 1).dropWhile Char.isAlpha) ((t.drop 1).dropWhile Char.isAlpha))
  | x, y => compare x.rank y.rank
termination_by a.length + b.length
decreasing_by
  all_goals
    have hs0 := length_pos_of_lead (s := skipSeparators a) (by rw [_hs]; decide)
    have ht0 := length_pos_of_lead (s := skipSeparators b) (by rw [_ht]; decide)
    have hsa := length_skipSeparators_le a
    have htb := length_skipSeparators_le b
    have hsd := Text.length_dropWhile_le Char.isDigit ((skipSeparators a).drop 1)
    have htd := Text.length_dropWhile_le Char.isDigit ((skipSeparators b).drop 1)
    have hsl := Text.length_dropWhile_le Char.isAlpha ((skipSeparators a).drop 1)
    have htl := Text.length_dropWhile_le Char.isAlpha ((skipSeparators b).drop 1)
    simp only [List.length_drop] at *
    omega

end DepClause.Label
