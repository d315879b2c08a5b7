import DepClause.Json.Basic
import DepClause.Text.Units

/-!
# Writing a data document

A value on one line, or laid out with two blanks for each level, and the plain text of a value
where it is named in a message.
-/

namespace DepClause.Json

/-- The escape that writes a unit as four hexadecimal digits. -/
def unitEscape (u : Nat) : List Char :=
  ['\\', 'u', Nat.digitChar (u / 0x1000), Nat.digitChar (u / 0x100 % 16),
    Nat.digitChar (u / 16 % 16), Nat.digitChar (u % 16)]

/-- A unit inside a quoted text. A half on its own is written as an escape. -/
def quotedUnit (u : Nat) : List Char :=
  match u with
  | 0x22 => ['\\', '"']
  | 0x5C => ['\\', '\\']
  | 0x0A => ['\\', 'n']
  | 0x0D => ['\\', 'r']
  | 0x09 => ['\\', 't']
  | 0x08 => ['\\', 'b']
  | 0x0C => ['\\', 'f']
  | _ =>
    if u < 0x20 ∨ (0xD800 ≤ u ∧ u < 0xE000) then unitEscape u else [Char.ofNat u]

/-- Units inside a quoted text. Halves that belong together stay the character that they are. -/
def quotedUnits : List Nat → List Char
  | u :: v :: us =>
    if Text.IsFirstHalf u ∧ Text.IsSecondHalf v then Text.ofUnits [u, v] ++ quotedUnits us
    else quotedUnit u ++ quotedUnits (v :: us)
  | [u] => quotedUnit u
  | [] => []

def quote (s : String) : String :=
  "\"" ++ String.ofList (quotedUnits (Text.units s.toList)) ++ "\""

/-- A number beyond the largest has no written form. -/
def renderNumber : Number → String
  | .infinite _ => "null"
  | n => n.render

mutual

/-- A value on one line without blanks. -/
def render : Json → String
  | .null => "null"
  | .bool b => if b then "true" else "false"
  | .number n => renderNumber n
  | .text s => quote s
  | .array items => "[" ++ ",".intercalate (renderItems items) ++ "]"
  | .object members => "\x7b" ++ ",".intercalate (renderMembers members) ++ "\x7d"

def renderItems : List Json → List String
  | [] => []
  | v :: vs => render v :: renderItems vs

def renderMembers : List (String × Json) → List String
  | [] => []
  | (name, v) :: rest => (quote name ++ ":" ++ render v) :: renderMembers rest

end

/-- Parts between two brackets, one to a line at the given depth. -/
def block (opening closing : String) (depth : Nat) (parts : List String) : String :=
  if parts.isEmpty then opening ++ closing
  else
    let margin (n : Nat) := "\n" ++ String.ofList (List.replicate (2 * n) ' ')
    opening ++ margin (depth + 1) ++ ("," ++ margin (depth + 1)).intercalate parts ++
      margin depth ++ closing

mutual

/-- A value with one item to a line. -/
def layOut (depth : Nat) : Json → String
  | .array items => block "[" "]" depth (layOutItems (depth + 1) items)
  | .object members => block "\x7b" "\x7d" depth (layOutMembers (depth + 1) members)
  | .null => "null"
  | .bool b => if b then "true" else "false"
  | .number n => renderNumber n
  | .text s => quote s

def layOutItems (depth : Nat) : List Json → List String
  | [] => []
  | v :: vs => layOut depth v :: layOutItems depth vs

def layOutMembers (depth : Nat) : List (String × Json) → List String
  | [] => []
  | (name, v) :: rest => (quote name ++ ": " ++ layOut depth v) :: layOutMembers depth rest

end

/-- A value with one item to a line and two blanks for each level. -/
def pretty (v : Json) : String := layOut 0 v

/-- The member that would say how its object is written as plain text. No value of a document can
say that, so an object with this member has no plain text. -/
def writerMember : String := "toString"

mutual

/-- Whether a value has a plain text. An array has one if all its items do. -/
def hasPlain : Json → Bool
  | .array items => itemsHavePlain items
  | .object members => !(members.map Prod.fst).contains writerMember
  | _ => true

def itemsHavePlain : List Json → Bool
  | [] => true
  | v :: vs => hasPlain v && itemsHavePlain vs

end

mutual

/-- The plain text, where a message names it, of a value that has one. -/
def plain : Json → String
  | .null => "null"
  | .bool b => if b then "true" else "false"
  | .number n => n.render
  | .text s => s
  | .array items => ",".intercalate (plainItems items)
  | .object _ => "[object Object]"

/-- Inside an array `null` leaves its place empty. -/
def plainItems : List Json → List String
  | [] => []
  | .null :: vs => "" :: plainItems vs
  | v :: vs => plain v :: plainItems vs

end

/-- Whether a value counts as present in a field that may be left blank. -/
def isPresent : Json → Bool
  | .null => false
  | .bool b => b
  | .number (.finite _ mantissa _) => mantissa != 0
  | .text s => !s.isEmpty
  | _ => true

end DepClause.Json
