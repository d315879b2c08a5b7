import DepClause.Json.Basic
import DepClause.Text.Units

/-!
# Reading a data document

The strict JSON grammar. Reading stops at the first character that no rule allows and names the
rule that was broken there.
-/

namespace DepClause.Json

/-- What is wrong at the place where reading stops. -/
inductive Fault where
  | endOfInput
  | unexpected
  | number
  | string
  | nameOrBrace
  | quotedName
  | colon
  | commaOrBrace
  | commaOrBracket
  | unterminatedString
  | controlCharacter
  | escape
  | unicodeEscape
  | noNumberAfterMinus
  | fraction
  | exponent
  | trailing
  deriving DecidableEq, Repr

/-- A fault and the text that was left when it was found. -/
structure SyntaxError where
  fault : Fault
  rest : List Char
  deriving DecidableEq, Repr

abbrev Read (α : Type) := Except SyntaxError (α × List Char)

def isGap (c : Char) : Bool := c == ' ' || c == '\t' || c == '\n' || c == '\r'

def skipGaps (s : List Char) : List Char := s.dropWhile isGap

def fail {α : Type} (fault : Fault) (rest : List Char) : Except SyntaxError α :=
  .error ⟨fault, rest⟩

def hexValue? (c : Char) : Option Nat :=
  let n := c.toNat
  if c.isDigit then some (n - 48)
  else if 97 ≤ n && n ≤ 102 then some (n - 87)
  else if 65 ≤ n && n ≤ 70 then some (n - 55)
  else none

/-- The unit written as four hexadecimal digits. -/
def readUnit : Nat → Nat → List Char → Read Nat
  | 0, acc, s => .ok (acc, s)
  | n + 1, acc, s =>
    match s with
    | c :: cs =>
      match hexValue? c with
      | some d => readUnit n (16 * acc + d) cs
      | none => fail .unicodeEscape s
    | [] => fail .unicodeEscape s

/-- The rest of a string and what follows its closing quote. `acc` holds the units read so far,
last first: an escape may write half a character. A character of the first 256 that stands behind a
backslash makes a bad escape, any other one is itself out of place. -/
def readString (fuel : Nat) (acc : List Nat) (s : List Char) : Read String :=
  match fuel, s with
  | 0, _ | _, [] => fail .unterminatedString s
  | fuel + 1, c :: cs =>
    if c == '"' then .ok (String.ofList (Text.ofUnits acc.reverse), cs)
    else if c == '\\' then
      match cs with
      | 'u' :: rest =>
        match readUnit 4 0 rest with
        | .ok (u, rest) => readString fuel (u :: acc) rest
        | .error e => .error e
      | '"' :: rest => readString fuel (0x22 :: acc) rest
      | '\\' :: rest => readString fuel (0x5C :: acc) rest
      | '/' :: rest => readString fuel (0x2F :: acc) rest
      | 'b' :: rest => readString fuel (8 :: acc) rest
      | 'f' :: rest => readString fuel (12 :: acc) rest
      | 'n' :: rest => readString fuel (10 :: acc) rest
      | 'r' :: rest => readString fuel (13 :: acc) rest
      | 't' :: rest => readString fuel (9 :: acc) rest
      | [] => fail .endOfInput []
      | e :: _ => fail (if e.toNat < 0x100 then .escape else .unexpected) cs
    else if c.toNat < 0x20 then fail .controlCharacter s
    else readString fuel ((Text.charUnits c).reverse ++ acc) cs

/-- The digits in front and what follows them. -/
def digits (s : List Char) : List Char × List Char :=
  (s.takeWhile Char.isDigit, s.dropWhile Char.isDigit)

/-- The digits after the decimal point, if there is one. -/
def readFraction : List Char → Read (List Char)
  | '.' :: cs =>
    match digits cs with
    | ([], rest) => fail .fraction rest
    | (ds, rest) => .ok (ds, rest)
  | s => .ok ([], s)

/-- The power of ten after the exponent mark, if there is one. -/
def readExponent : List Char → Read Int
  | c :: cs =>
    if c == 'e' || c == 'E' then
      let (negative, cs) := match cs with
        | '-' :: r => (true, r)
        | '+' :: r => (false, r)
        | r => (false, r)
      match digits cs with
      | ([], rest) => fail .exponent rest
      | (ds, rest) =>
        let n := Nat.ofDigitChars 10 ds 0
        .ok (if negative then -(n : Int) else n, rest)
    else .ok (0, c :: cs)
  | [] => .ok (0, [])

/-- A number whose sign has been read. -/
def readNumber (negative : Bool) (s : List Char) : Except SyntaxError (Json × List Char) := do
  let (whole, rest) := digits s
  match whole with
  | [] => fail .noNumberAfterMinus rest
  | '0' :: _ :: _ => fail .number (s.drop 1)
  | _ =>
    let (fraction, rest) ← readFraction rest
    let (power, rest) ← readExponent rest
    let all := Nat.ofDigitChars 10 (whole ++ fraction) 0
    return (.number (.ofDecimal negative all (power - fraction.length)), rest)

/-- What is wrong with a character inside a word. -/
def faultAt : List Char → Fault
  | [] => .endOfInput
  | c :: _ =>
    if c.isDigit || c == '-' then .number else if c == '"' then .string else .unexpected

/-- The rest of one of the words `null`, `true` and `false`. -/
def readWord (value : Json) : List Char → List Char → Read Json
  | [], s => .ok (value, s)
  | w :: ws, c :: cs => if w == c then readWord value ws cs else fail (faultAt (c :: cs)) (c :: cs)
  | _ :: _, [] => fail .endOfInput []

mutual

/-- A value and what follows it. The fuel bounds the number of values and members still to be
read, so the length of the text is enough. -/
def readValue (fuel : Nat) (s : List Char) : Read Json :=
  match fuel with
  | 0 => fail .endOfInput s
  | fuel + 1 =>
    match skipGaps s with
    | [] => fail .endOfInput []
    | '"' :: cs => (readString (cs.length + 1) [] cs).map fun (t, rest) => (.text t, rest)
    | '\x7b' :: cs =>
      match skipGaps cs with
      | '\x7d' :: rest => .ok (.object [], rest)
      | '"' :: rest => (readMembers fuel [] rest).map fun (ms, rest) => (.object ms, rest)
      | rest => fail .nameOrBrace rest
    | '[' :: cs =>
      match skipGaps cs with
      | ']' :: rest => .ok (.array [], rest)
      | rest => (readItems fuel rest).map fun (vs, rest) => (.array vs, rest)
    | 'n' :: cs => readWord .null ['u', 'l', 'l'] cs
    | 't' :: cs => readWord (.bool true) ['r', 'u', 'e'] cs
    | 'f' :: cs => readWord (.bool false) ['a', 'l', 's', 'e'] cs
    | '-' :: cs => readNumber true cs
    | c :: cs => if c.isDigit then readNumber false (c :: cs) else fail .unexpected (c :: cs)

/-- The items of an array up to its closing bracket. -/
def readItems (fuel : Nat) (s : List Char) : Read (List Json) :=
  match fuel with
  | 0 => fail .endOfInput s
  | fuel + 1 =>
    match readValue fuel s with
    | .error e => .error e
    | .ok (v, rest) =>
      match skipGaps rest with
      | ',' :: rest => (readItems fuel rest).map fun (vs, rest) => (v :: vs, rest)
      | ']' :: rest => .ok ([v], rest)
      | rest => fail .commaOrBracket rest

/-- The members of an object from behind the opening quote of a name up to the closing brace. The
last of two members of one name counts. -/
def readMembers (fuel : Nat) (acc : Table Json) (s : List Char) : Read (Table Json) :=
  match fuel with
  | 0 => fail .endOfInput s
  | fuel + 1 =>
    match readString (s.length + 1) [] s with
    | .error e => .error e
    | .ok (name, rest) =>
      match skipGaps rest with
      | ':' :: rest =>
        match readValue fuel rest with
        | .error e => .error e
        | .ok (v, rest) =>
          match skipGaps rest with
          | ',' :: rest =>
            match skipGaps rest with
            | '"' :: rest => readMembers fuel (Table.set acc name v) rest
            | rest => fail .quotedName rest
          | '\x7d' :: rest => .ok (Table.set acc name v, rest)
          | rest => fail .commaOrBrace rest
      | rest => fail .colon rest

end

/-- The value of a whole text. -/
def parseChars (s : List Char) : Except SyntaxError Json := do
  let (v, rest) ← readValue (2 * s.length + 2) s
  match skipGaps rest with
  | [] => return v
  | rest => fail .trailing rest

def parse (s : String) : Except SyntaxError Json := parseChars s.toList

/-- The line and column of a place, both counted from one, and the column in units. -/
def lineAndColumn : List Char → Nat → Nat → Nat × Nat
  | [], line, column => (line, column)
  | '\r' :: '\n' :: cs, line, _ => lineAndColumn cs (line + 1) 1
  | c :: cs, line, column =>
    if c == '\n' || c == '\r' then lineAndColumn cs (line + 1) 1
    else lineAndColumn cs line (column + (Text.charUnits c).length)

/-- The words that stand for missing values elsewhere are named whole. -/
def missingValueWords : List String := ["NaN", "Infinity", "undefined", "[object Object]"]

/-- The source as it is quoted for an unexpected character: whole up to 20 units, else the ten
units on either side. -/
def quoteSource (source : List Char) (position : Nat) : String :=
  let us := Text.units source
  let cut (first last : Nat) := String.ofList (Text.ofUnits ((us.take last).drop first))
  if us.length ≤ 20 then "\"" ++ cut 0 us.length ++ "\""
  else if position < 10 then "\"" ++ cut 0 (position + 10) ++ "\"..."
  else if position < us.length - 10 then
    "...\"" ++ cut (position - 10) (position + 10) ++ "\"..."
  else "...\"" ++ cut (position - 10) us.length ++ "\""

/-- The text of an error found in `source`. -/
def SyntaxError.message (e : SyntaxError) (source : String) : String :=
  let read := source.toList.take (source.toList.length - e.rest.length)
  let position := Text.width read
  let (line, column) := lineAndColumn read 1 1
  let placed (text : String) :=
    text ++ " JSON at position " ++ toString position ++ " (line " ++ toString line ++
      " column " ++ toString column ++ ")"
  match e.fault with
  | .endOfInput => "Unexpected end of JSON input"
  | .unexpected =>
    if missingValueWords.contains source then "\"" ++ source ++ "\" is not valid JSON"
    else
      let shown := match e.rest with
        | c :: _ => String.singleton (Text.firstUnit c)
        | [] => ""
      "Unexpected token '" ++ shown ++ "', " ++ quoteSource source.toList position ++
        " is not valid JSON"
  | .number => placed "Unexpected number in"
  | .string => placed "Unexpected string in"
  | .nameOrBrace => placed "Expected property name or '\x7d' in"
  | .quotedName => placed "Expected double-quoted property name in"
  | .colon => placed "Expected ':' after property name in"
  | .commaOrBrace => placed "Expected ',' or '\x7d' after property value in"
  | .commaOrBracket => placed "Expected ',' or ']' after array element in"
  | .unterminatedString => placed "Unterminated string in"
  | .controlCharacter => placed "Bad control character in string literal in"
  | .escape => placed "Bad escaped character in"
  | .unicodeEscape => placed "Bad Unicode escape in"
  | .noNumberAfterMinus => placed "No number after minus sign in"
  | .fraction => placed "Unterminated fractional number in"
  | .exponent => placed "Exponent part is missing a number in"
  | .trailing => placed "Unexpected non-whitespace character after"

end DepClause.Json
