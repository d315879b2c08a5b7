import DepClause.Log.Logger
import DepClause.Settings.Store

/-!
# Sessions

A command runs on a disk, writes log entries and prints. It may fail at any point; what it has
written and printed until then stays.
-/

namespace DepClause.Command

/-- A piece of standard output. -/
inductive Printed where
  | line (text : String)
  | table (head : List String) (rows : List (List String))
  deriving DecidableEq, Repr

/-- The text of a piece of standard output. A table has a line for each row, with tabs between the
cells. -/
def Printed.text : Printed → String
  | .line text => text
  | .table head rows => "\n".intercalate ((head :: rows).map ("\t".intercalate ·))

structure Session where
  disk : Disk
  logger : Log.Logger := {}
  output : Log.Output := {}
  printed : List Printed := []

/-- A computation of a command. -/
abbrev Run (α : Type) := ExceptT Fault (StateM Session) α

namespace Run

def print (p : Printed) : Run Unit :=
  modify fun s => { s with printed := s.printed ++ [p] }

def line (text : String) : Run Unit := print (.line text)

def lines (texts : List String) : Run Unit := texts.forM line

def log (entries : List Log.Entry) : Run Unit :=
  modify fun s => { s with output := s.logger.writeAll entries s.output }

def debug (message : String) (fields : Table Json) : Run Unit :=
  log [⟨.debug, message, fields⟩]

def ofExcept {α : Type} (r : Except Fault α) : Run α :=
  match r with
  | .ok a => pure a
  | .error fault => throw fault

/-- A result that may have been refused. -/
def check {α : Type} (r : Except Failure α) : Run α := ofExcept (r.mapError .refused)

/-- A result with its entries, which are written also if it was refused. -/
def checkLogged {α : Type} (r : Logged Failure α) : Run α := do
  log r.entries
  check r.result

/-- The settings, the disk and other things read without a change. -/
def read {α : Type} (f : Disk → Except Fault α) : Run α := do
  ofExcept (f (← get).disk)

/-- A change of the disk. -/
def change (f : Disk → Changed Fault) : Run Unit := do
  let changed := f (← get).disk
  modify fun s => { s with disk := changed.disk }
  ofExcept changed.result

end Run

/-- The session after a failure has been reported under a context. -/
def Session.report (s : Session) (context : String) (fault : Fault) : Session :=
  let entry := Log.errorEntry fault.reportedKind fault.message context fault.fields
  { s with output := s.logger.write entry s.output }

end DepClause.Command
