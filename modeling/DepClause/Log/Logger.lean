import DepClause.Failure
import DepClause.Log.Entry

/-!
# Where entries go

Entries that reach the threshold go to the console and, once file logging is on, to the log files.
The error file takes only errors.
-/

namespace DepClause.Log

/-- The texts in the two log files. -/
structure Files where
  general : List String := []
  errors : List String := []
  deriving DecidableEq, Repr

/-- What has been written: the console, and the log files if there are any. -/
structure Output where
  console : List String := []
  files : Option Files := none
  deriving DecidableEq, Repr

/-- The threshold, and whether entries go to the log files. -/
structure Logger where
  threshold : Level := .warn
  toFiles : Bool := false
  deriving DecidableEq, Repr

namespace Logger

def write (logger : Logger) (e : Entry) (output : Output) : Output :=
  if e.level.reaches logger.threshold && !e.isException then
    { console := output.console ++ [e.consoleText]
      files :=
        if logger.toFiles then
          let files := output.files.getD {}
          some { general := files.general ++ [e.fileText]
                 errors :=
                   if e.level = .error then files.errors ++ [e.fileText] else files.errors }
        else output.files }
  else output

/-- An entry whose fields may hold any values. One that cannot be shown fails whether or not it
reaches the threshold. -/
def accept (logger : Logger) (e : Entry) (output : Output) : Except Failure Output :=
  if e.isShowable then .ok (logger.write e output) else .error .noPlainText

def writeAll (logger : Logger) (entries : List Entry) (output : Output) : Output :=
  entries.foldl (fun output e => logger.write e output) output

/-- File logging turned on with a threshold. It is turned on once; later requests do nothing. -/
def start (logger : Logger) (level : Level) (logsDirectory : String) (output : Output) :
    Logger × Output :=
  if logger.toFiles then (logger, output)
  else
    let started : Logger := { threshold := level, toFiles := true }
    let entry : Entry := ⟨.debug, "로거 초기화 완료", [("logsDir", .text logsDirectory)]⟩
    (started, started.write entry { output with files := some (output.files.getD {}) })

end Logger

/-- An error under its kind. -/
def errorReport (kind message : String) : String :=
  if message.isEmpty then kind else kind ++ ": " ++ message

/-- The entry that reports an error: its message behind the context, and for the log files the
message under its kind. -/
def errorEntry (kind message context : String) (fields : Table Json) : Entry :=
  { level := .error
    message := if context.isEmpty then message else context ++ ": " ++ message
    fields := Table.set fields "stack" (.text (errorReport kind message)) }

end DepClause.Log
