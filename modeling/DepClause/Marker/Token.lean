import DepClause.Marker.Basic
import DepClause.Text.Units

/-!
# Marker tokens

A marker text is cut into parentheses, quoted texts, operators and words, each with the position
where it starts. A quoted text ends at the next quote of its kind; nothing is escaped in it.
-/

namespace DepClause.Marker

inductive Token where
  | opening
  | closing
  | text (s : String)
  | word (s : String)
  | operator (op : Comparator)
  | and
  | or
  | isIn
  | not
  deriving DecidableEq, Repr

/-- A token as a failure shows it. -/
def Token.shown : Token → String
  | .opening => "("
  | .closing => ")"
  | .text s => s
  | .word s => s
  | .operator op => op.text
  | .and => "and"
  | .or => "or"
  | .isIn => "in"
  | .not => "not"

/-- A token and the position where it starts, in UTF-16 units. -/
structure Placed where
  token : Token
  position : Nat
  deriving DecidableEq, Repr

/-- A fault and the position where it was found. -/
abbrev Fault := MarkerFault × Nat

def startsWord (c : Char) : Bool := c.isAlpha || c == '_'

def continuesWord (c : Char) : Bool := c.isAlphanum || c == '_' || c == '.'

/-- The token of a word: four words are keywords. -/
def wordToken (s : List Char) : Token :=
  match String.ofList s with
  | "and" => .and
  | "or" => .or
  | "in" => .isIn
  | "not" => .not
  | w => .word w

/-- The token in front of a text that starts with no blank, and the characters that it takes. -/
def front (s : List Char) : Except MarkerFault (Token × Nat) :=
  match s with
  | [] => .error .atEnd
  | c :: cs =>
    if c == '(' then .ok (.opening, 1)
    else if c == ')' then .ok (.closing, 1)
    else if c == '"' || c == '\'' then
      let body := cs.takeWhile (· != c)
      if body.length < cs.length then .ok (.text (String.ofList body), body.length + 2)
      else .error .openText
    else
      match Comparator.front? (c :: cs) with
      | some (op, _) => .ok (.operator op, op.text.length)
      | none =>
        if startsWord c then
          let word := c :: cs.takeWhile continuesWord
          .ok (wordToken word, word.length)
        else .error (.character (Text.firstUnit c))

/-- The tokens of a text that starts at a position. -/
def tokensFrom (position : Nat) : List Char → Except Fault (List Placed)
  | [] => .ok []
  | c :: cs =>
    if Text.isBlank c then tokensFrom (position + Text.width [c]) cs
    else
      match front (c :: cs) with
      | .error fault => .error (fault, position)
      | .ok (token, size) =>
        let taken := (c :: cs).take size
        match tokensFrom (position + Text.width taken) (cs.drop (size - 1)) with
        | .error e => .error e
        | .ok rest => .ok (⟨token, position⟩ :: rest)
termination_by s => s.length
decreasing_by
  all_goals
    simp only [List.length_cons, List.length_drop]
    omega

def tokens (s : List Char) : Except Fault (List Placed) := tokensFrom 0 s

end DepClause.Marker
