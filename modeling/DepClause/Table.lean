/-!
# Tables

Values under names, in the order in which the names were first set. Setting a name again keeps
its place.
-/

namespace DepClause

/-- Named values in order. A name that is set occurs once. -/
abbrev Table (α : Type) := List (String × α)

namespace Table

variable {α : Type}

def get? : Table α → String → Option α
  | [], _ => none
  | (n, v) :: rest, name => if n = name then some v else get? rest name

def contains (t : Table α) (name : String) : Bool := (t.get? name).isSome

/-- The table with `value` under `name`. A new name goes to the end. -/
def set (t : Table α) (name : String) (value : α) : Table α :=
  match t with
  | [] => [(name, value)]
  | (n, v) :: rest => if n = name then (name, value) :: rest else (n, v) :: set rest name value

/-- The name that a table has for itself, so that it cannot hold a value under it. -/
def reserved : String := "__proto__"

/-- The entries that a table can hold. -/
def kept (t : Table α) : Table α := t.filter fun entry => entry.1 != reserved

/-- The table with the entries of another one set in turn. -/
def merge (t entries : Table α) : Table α :=
  entries.foldl (fun acc entry => acc.set entry.1 entry.2) t

theorem get?_set (t : Table α) (name other : String) (value : α) :
    (t.set name value).get? other = if other = name then some value else t.get? other := by
  induction t with
  | nil => grind [set, get?]
  | cons entry rest ih => grind [set, get?]

end Table

end DepClause
