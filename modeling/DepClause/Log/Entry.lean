import DepClause.Json.Printer

/-!
# Log entries

An entry has a level, a message and named fields. `Logged` is a computation that may fail and
leaves entries behind, also those made before it fails.
-/

namespace DepClause.Log

inductive Level where
  | error
  | warn
  | info
  | debug
  deriving DecidableEq, Repr

namespace Level

def name : Level → String
  | .error => "error"
  | .warn => "warn"
  | .info => "info"
  | .debug => "debug"

/-- All levels, the most serious first. -/
def all : List Level := [.error, .warn, .info, .debug]

def ofName? (s : String) : Option Level := all.find? fun level => level.name == s

def rank : Level → Nat
  | .error => 0
  | .warn => 1
  | .info => 2
  | .debug => 3

/-- Whether an entry of the level is kept under a threshold. -/
def reaches (level threshold : Level) : Bool := level.rank ≤ threshold.rank

end Level

structure Entry where
  level : Level
  message : String
  fields : Table Json := []
  deriving Repr

namespace Entry

/-- Whether a text has a format directive: a percent sign before one of the letters that take a
field, or before another percent sign. -/
def hasDirective : List Char → Bool
  | '%' :: c :: cs =>
    ['s', 'c', 'd', 'j', 'i', 'f', 'o', 'O', '%'].contains c || hasDirective (c :: cs)
  | _ :: cs => hasDirective cs
  | [] => false

/-- The fields that an entry shows: a message with a format directive takes them all as arguments,
which are not shown. -/
def kept (e : Entry) : Table Json := if hasDirective e.message.toList then [] else e.fields

/-- The names of an entry's own parts, which are not shown as fields. -/
def ownNames : List String := ["level", "message", "timestamp", "stack"]

/-- A field of the kept ones that is there and not blank, as plain text. -/
def plainField? (e : Entry) (name : String) : Option String :=
  match Table.get? e.kept name with
  | some v => if v.isPresent then some v.plain else none
  | none => none

/-- Whether the fields that an entry shows as plain text have one. -/
def isShowable (e : Entry) : Bool :=
  ["message", "stack"].all fun name => ((Table.get? e.kept name).map Json.hasPlain).getD true

/-- Whether an entry is marked as an exception that nothing caught. Such entries are not written. -/
def isException (e : Entry) : Bool :=
  match Table.get? e.kept "exception" with
  | some (.bool b) => b
  | _ => false

/-- The message, with the field `message` behind it, and the other fields as a document. -/
def text (e : Entry) : String :=
  let message := match e.plainField? "message" with
    | some more => e.message ++ " " ++ more
    | none => e.message
  match e.kept.filter fun field => !ownNames.contains field.1 with
  | [] => message
  | fields => message ++ " " ++ (Json.object fields).render

/-- An entry on the console. -/
def consoleText (e : Entry) : String := e.level.name ++ ": " ++ e.text

/-- An entry in a log file, where the error that it reports follows on its own lines. -/
def fileText (e : Entry) : String :=
  let line := "[" ++ e.level.name.toUpper ++ "] " ++ e.text
  match e.plainField? "stack" with
  | some stack => line ++ "\n" ++ stack
  | none => line

end Entry

end DepClause.Log

namespace DepClause

/-- A result and the entries made on the way to it. -/
structure Logged (ε α : Type) where
  entries : List Log.Entry
  result : Except ε α

namespace Logged

variable {ε α β : Type}

/-- A result without entries. -/
def of (result : Except ε α) : Logged ε α := ⟨[], result⟩

/-- An entry on its own. -/
def note (level : Log.Level) (message : String) (fields : Table Json) : Logged ε Unit :=
  ⟨[⟨level, message, fields⟩], .ok ()⟩

/-- A second computation behind a first one that succeeds. -/
def andThen (first : Logged ε α) (next : α → Logged ε β) : Logged ε β :=
  match first.result with
  | .ok a => ⟨first.entries ++ (next a).entries, (next a).result⟩
  | .error e => ⟨first.entries, .error e⟩

instance : Monad (Logged ε) where
  pure a := of (.ok a)
  bind := andThen

theorem result_bind (first : Logged ε α) (next : α → Logged ε β) :
    (first >>= next).result = first.result >>= fun a => (next a).result := by
  cases first with | mk entries result => cases result <;> rfl

theorem result_bind_eq_ok_iff {first : Logged ε α} {next : α → Logged ε β} {b : β} :
    (first >>= next).result = .ok b ↔ ∃ a, first.result = .ok a ∧ (next a).result = .ok b := by
  rw [result_bind]
  cases first.result with
  | error e => simp [bind, Except.bind]
  | ok a => simp [bind, Except.bind]

end Logged

end DepClause
