import DepClause.Text.Units

/-!
# Quoted texts

A text between quotes, as a message shows it. The single quote is taken unless the text holds one
and can do without another kind. Control characters, backslashes and the quote itself are escaped.
-/

namespace DepClause.Text

/-- Whether a text holds a backtick or the start of a substitution between backticks. -/
def hasBacktick : List Char → Bool
  | '\x60' :: _ | '$' :: '\x7b' :: _ => true
  | _ :: cs => hasBacktick cs
  | [] => false

/-- The quote that needs no escape, if there is one. -/
def quoteFor (s : List Char) : Char :=
  if !s.contains '\'' then '\''
  else if !s.contains '"' then '"'
  else if !hasBacktick s then '\x60'
  else '\''

/-- The escape of a control character, with two hexadecimal digits. -/
def controlEscape (n : Nat) : List Char :=
  ['\\', 'x', (Nat.digitChar (n / 16)).toUpper, (Nat.digitChar (n % 16)).toUpper]

/-- A character between quotes of a kind. -/
def quotedChar (quote c : Char) : List Char :=
  match c with
  | '\x08' => ['\\', 'b']
  | '\t' => ['\\', 't']
  | '\n' => ['\\', 'n']
  | '\x0c' => ['\\', 'f']
  | '\r' => ['\\', 'r']
  | '\\' => ['\\', '\\']
  | c =>
    let n := c.toNat
    if c == '\'' && quote == '\'' then ['\\', c]
    else if n < 0x20 || (0x7F ≤ n && n < 0xA0) then controlEscape n
    else [c]

def inQuotes (s : String) : String :=
  let quote := quoteFor s.toList
  String.ofList (quote :: s.toList.flatMap (quotedChar quote) ++ [quote])

/-- A text of at most a number of units, and three points in place of the rest. -/
def shortened (most : Nat) (s : String) : String :=
  let us := units s.toList
  if us.length ≤ most then s else String.ofList (ofUnits (us.take most)) ++ "..."

end DepClause.Text
