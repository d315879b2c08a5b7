import DepClause.Disk.Basic
import DepClause.Failure

/-!
# Faults

What ends a run: a failure of the conversion, or something wrong with a file or an option. Every
fault is worded here or where its cause is.
-/

namespace DepClause

/-- Anything that ends a run. -/
inductive Fault where
  | refused (failure : Failure)
  | disk (fault : DiskFault)
  | syntaxError (path message : String)
  | environmentPair (pair : String)
  deriving DecidableEq, Repr

namespace Fault

def message : Fault → String
  | .refused failure => failure.message
  | .disk fault => fault.message
  | .syntaxError path message => path ++ ": " ++ message
  | .environmentPair pair => "--env 형식은 KEY=VALUE 입니다: " ++ pair

/-- The kind of an error. -/
def kind : Fault → String
  | .refused failure => failure.kind
  | .syntaxError .. => "SyntaxError"
  | .disk (.nullInPath _) => "TypeError"
  | .disk _ | .environmentPair _ => "Error"

/-- The kind of an error as the log files show it. -/
def reportedKind : Fault → String
  | .disk (.nullInPath _) => "TypeError [ERR_INVALID_ARG_VALUE]"
  | fault => fault.kind

/-- What an entry says of a failure besides its message. -/
def fields : Fault → Table Json
  | .refused failure =>
    (failure.code?.map fun code => ("code", Json.text code)).toList ++ failure.context
  | _ => []

end Fault

end DepClause
