import DepClause.Table
import DepClause.Json.Number

/-!
# Data documents

The values of a JSON document. The members of an object keep their order.
-/

namespace DepClause

inductive Json where
  | null
  | bool (b : Bool)
  | number (n : Json.Number)
  | text (s : String)
  | array (items : List Json)
  | object (members : List (String × Json))
  deriving Repr, Inhabited

namespace Json

def ofNat (n : Nat) : Json := .number (.ofDecimal false n 0)

def ofTexts (items : List String) : Json := .array (items.map .text)

/-- The value of a member of an object; no other value has members. -/
def member? : Json → String → Option Json
  | .object members, name => Table.get? members name
  | _, _ => none

def asText? : Json → Option String
  | .text s => some s
  | _ => none

/-- The items of an array of texts. -/
def asTexts? : Json → Option (List String)
  | .array items => items.mapM asText?
  | _ => none

mutual

/-- What a value reads back as after it has been written: a number beyond the largest is written
as `null`. -/
def stored : Json → Json
  | .number (.infinite _) => .null
  | .array items => .array (storedItems items)
  | .object members => .object (storedMembers members)
  | v => v

def storedItems : List Json → List Json
  | [] => []
  | v :: vs => stored v :: storedItems vs

def storedMembers : List (String × Json) → List (String × Json)
  | [] => []
  | (name, v) :: rest => (name, stored v) :: storedMembers rest

end

end Json

end DepClause
