import DepClause.Failure
import DepClause.Text.Blank
import DepClause.Text.Units

/-!
# Templates

A template is text with placeholders in single braces. A brace of the text itself is doubled.
-/

namespace DepClause

namespace Template

/-- A part of a template: a character, a placeholder, or a brace that belongs to neither. -/
inductive Piece where
  | char (c : Char)
  | name (s : String)
  | stray (c : Char)
  deriving DecidableEq, Repr

def isBrace (c : Char) : Bool := c == '\x7b' || c == '\x7d'

/-- The parts of a template from left to right: a doubled brace before a placeholder, and a
placeholder before a brace without its partner. -/
def pieces : List Char → List Piece
  | [] => []
  | '\x7b' :: '\x7b' :: cs => .char '\x7b' :: pieces cs
  | '\x7d' :: '\x7d' :: cs => .char '\x7d' :: pieces cs
  | '\x7d' :: cs => .stray '\x7d' :: pieces cs
  | '\x7b' :: cs =>
    match _h : cs.dropWhile (!isBrace ·) with
    | '\x7d' :: rest => .name (String.ofList (cs.takeWhile (!isBrace ·))) :: pieces rest
    | _ => .stray '\x7b' :: pieces cs
  | c :: cs => .char c :: pieces cs
termination_by s => s.length
decreasing_by
  all_goals simp only [List.length_cons]
  all_goals try omega
  have := Text.length_dropWhile_le (!isBrace ·) cs
  rw [_h] at this
  simp only [List.length_cons] at this
  omega

/-- The names of the placeholders in the order of their first use. -/
def placeholders (template : String) : List String :=
  ((pieces template.toList).filterMap fun
    | .name s => some s
    | _ => none).eraseDups

/-- The text that a part stands for. -/
def fillPiece (template : String) (values : Table String) : Piece → Except Failure String
  | .char c => .ok (String.singleton c)
  | .stray c => .error (.badTemplate template (.brace (String.singleton c)))
  | .name s =>
    match values.get? s with
    | some v => .ok v
    | none => .error (.badTemplate template (.missing s))

/-- The template with its placeholders filled in. Values go in as they are; halves of a character
that come together this way are joined. -/
def fill (template : String) (values : Table String) : Except Failure String := do
  return Text.joined (String.join (← (pieces template.toList).mapM (fillPiece template values)))

end Template

end DepClause
