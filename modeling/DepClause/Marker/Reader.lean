import DepClause.Marker.Token

/-!
# Reading a marker

`and` binds before `or`, and both group to the left. A comparison has one quoted text and one
variable, in either order.
-/

namespace DepClause.Marker

/-- Something read and the tokens behind it. -/
abbrev Reading (α : Type) := Except Fault (α × List Placed)

/-- One side of a comparison. -/
inductive Operand where
  | text (s : String)
  | word (s : String)
  deriving DecidableEq, Repr

/-- The position of the next token; behind the last one, that of the end of the text. -/
def nextPosition (stop : Nat) : List Placed → Nat
  | [] => stop
  | t :: _ => t.position

/-- Old names of variables, and the names that took their place. -/
def renamed : Table String :=
  [("os.name", "os_name"), ("sys.platform", "sys_platform"),
   ("platform.version", "platform_version"), ("platform.machine", "platform_machine"),
   ("platform.python_implementation", "platform_python_implementation"),
   ("python_implementation", "platform_python_implementation")]

def variableNamed (word : String) : String := (renamed.get? word).getD word

def readOperand (stop : Nat) : List Placed → Reading Operand
  | ⟨.text s, _⟩ :: ts => .ok (.text s, ts)
  | ⟨.word s, _⟩ :: ts => .ok (.word s, ts)
  | ⟨token, position⟩ :: _ => .error (.noValue token.shown, position)
  | [] => .error (.atEnd, stop)

def readOperator (stop : Nat) : List Placed → Reading MarkerOperator
  | ⟨.operator op, _⟩ :: ts => .ok (.compare op, ts)
  | ⟨.isIn, _⟩ :: ts => .ok (.isIn, ts)
  | ⟨.not, _⟩ :: ⟨.isIn, _⟩ :: ts => .ok (.notIn, ts)
  | ⟨.not, _⟩ :: ts => .error (.notWithoutIn, nextPosition stop ts)
  | ⟨token, position⟩ :: _ => .error (.noOperator token.shown, position)
  | [] => .error (.noOperator "", stop)

/-- The comparison of two sides; a pair of texts or of variables is refused. -/
def comparisonOf (op : MarkerOperator) : Operand → Operand → Except MarkerFault Comparison
  | .word v, .text l => .ok ⟨variableNamed v, op, l, false⟩
  | .text l, .word v => .ok ⟨variableNamed v, op, l, true⟩
  | .text _, .text _ => .error .twoTexts
  | .word _, .word _ => .error .twoVariables

def readComparison (stop : Nat) (ts : List Placed) : Reading Comparison :=
  match readOperand stop ts with
  | .error e => .error e
  | .ok (left, us) =>
    match readOperator stop us with
    | .error e => .error e
    | .ok (op, us) =>
      match readOperand stop us with
      | .error e => .error e
      | .ok (right, us) =>
        match comparisonOf op left right with
        | .error fault => .error (fault, nextPosition stop ts)
        | .ok c => .ok (c, us)

mutual

/-- One or more parts with `or` between them. The fuel bounds the depth of the calls; four for each
token are enough. -/
def readOr (stop : Nat) : Nat → List Placed → Reading Marker
  | 0, ts => .error (.atEnd, nextPosition stop ts)
  | fuel + 1, ts =>
    match readAnd stop fuel ts with
    | .error e => .error e
    | .ok (left, rest) => readOrTail stop fuel left rest

def readOrTail (stop : Nat) : Nat → Marker → List Placed → Reading Marker
  | 0, _, ts => .error (.atEnd, nextPosition stop ts)
  | fuel + 1, left, ⟨.or, _⟩ :: ts =>
    match readAnd stop fuel ts with
    | .error e => .error e
    | .ok (right, rest) => readOrTail stop fuel (.or left right) rest
  | _ + 1, left, ts => .ok (left, ts)

/-- One or more parts with `and` between them. -/
def readAnd (stop : Nat) : Nat → List Placed → Reading Marker
  | 0, ts => .error (.atEnd, nextPosition stop ts)
  | fuel + 1, ts =>
    match readAtom stop fuel ts with
    | .error e => .error e
    | .ok (left, rest) => readAndTail stop fuel left rest

def readAndTail (stop : Nat) : Nat → Marker → List Placed → Reading Marker
  | 0, _, ts => .error (.atEnd, nextPosition stop ts)
  | fuel + 1, left, ⟨.and, _⟩ :: ts =>
    match readAtom stop fuel ts with
    | .error e => .error e
    | .ok (right, rest) => readAndTail stop fuel (.and left right) rest
  | _ + 1, left, ts => .ok (left, ts)

/-- A comparison, or a marker in parentheses. -/
def readAtom (stop : Nat) : Nat → List Placed → Reading Marker
  | 0, ts => .error (.atEnd, nextPosition stop ts)
  | fuel + 1, ⟨.opening, _⟩ :: ts =>
    match readOr stop fuel ts with
    | .error e => .error e
    | .ok (inner, ⟨.closing, _⟩ :: rest) => .ok (inner, rest)
    | .ok (_, rest) => .error (.closing, nextPosition stop rest)
  | _ + 1, ts =>
    match readComparison stop ts with
    | .error e => .error e
    | .ok (c, rest) => .ok (.comparison c, rest)

end

/-- The marker that all tokens of a text form. -/
def ofTokens (stop : Nat) (ts : List Placed) : Except Fault Marker :=
  match readOr stop (4 * (ts.length + 1)) ts with
  | .error e => .error e
  | .ok (m, []) => .ok m
  | .ok (_, ⟨token, position⟩ :: _) => .error (.leftover token.shown, position)

def ofChars (s : List Char) : Except Fault Marker :=
  match tokens s with
  | .error e => .error e
  | .ok ts => ofTokens (Text.width s) ts

/-- The marker that a text writes. -/
def parse (text : String) : Except Failure Marker :=
  match ofChars text.toList with
  | .ok m => .ok m
  | .error (fault, position) => .error (.badMarker text fault position)

end DepClause.Marker
