import DepClause.Marker.Reader
import DepClause.Text.Split

/-!
# Requirements

A requirement is a package name, optional extras in brackets, then either version specifiers, bare
or in parentheses, or an address behind `@`, and an optional marker behind a semicolon.
-/

namespace DepClause

structure Requirement where
  name : String
  extras : List String
  specifiers : List Specifier
  url : Option String
  marker : Option Marker
  /-- The text that the marker was read from. -/
  markerText : Option String
  deriving DecidableEq, Repr

namespace Requirement

def isNameChar (c : Char) : Bool := c.isAlphanum || c == '.' || c == '_' || c == '-'

/-- The name in front of a text: it starts and ends with a letter or digit. -/
def frontName (s : List Char) : List Char :=
  match s with
  | c :: _ =>
    if c.isAlphanum then ((s.takeWhile isNameChar).reverse.dropWhile (!·.isAlphanum)).reverse
    else []
  | [] => []

/-- Whether all of a text is a name. -/
def isName (s : List Char) : Bool := !s.isEmpty && frontName s == s

/-- The names between the brackets. -/
def readExtras (text : String) (inner : List Char) : Except Failure (List String) :=
  match Text.trim inner with
  | [] => .ok []
  | inner =>
    ((inner.splitOn ',').map Text.trim).mapM fun extra =>
      if isName extra then .ok (String.ofList extra)
      else .error (.badRequirement text (.extra (String.ofList extra)))

/-- The specifiers of a version part, without the parentheses around it. -/
def readVersions (text : String) (part : List Char) : Except Failure (List Specifier) :=
  match Text.trim part with
  | '(' :: inner =>
    match inner.getLast? with
    | some ')' => Specifier.parseAll (String.ofList inner.dropLast)
    | _ => .error (.badRequirement text .parenthesis)
  | part => Specifier.parseAll (String.ofList part)

/-- What stands behind the name and extras: an address or specifiers, and the text of a marker. -/
def readTarget (text : String) (s : List Char) :
    Except Failure (Option String × List Specifier × Option (List Char)) := do
  match s with
  | '@' :: rest =>
    let rest := Text.trimLeft rest
    let url := rest.takeWhile (!Text.isBlank ·)
    if url.isEmpty then .error (.badRequirement text .url)
    match Text.trim (rest.drop url.length) with
    | [] => return (some (String.ofList url), [], none)
    | ';' :: marker => return (some (String.ofList url), [], some marker)
    | after => .error (.badRequirement text (.afterUrl (String.ofList after)))
  | _ =>
    match Text.splitFirst? ';' s with
    | some (versions, marker) => return (none, ← readVersions text versions, some marker)
    | none => return (none, ← readVersions text s, none)

/-- The extras in front of a text and what follows them. -/
def splitExtras (text : String) (s : List Char) :
    Except Failure (List String × List Char) := do
  match s with
  | '[' :: rest =>
    match Text.splitFirst? ']' rest with
    | some (inner, rest) => return (← readExtras text inner, Text.trimLeft rest)
    | none => .error (.badRequirement text .bracket)
  | _ => return ([], s)

/-- The requirement that a text writes. -/
def parse (text : String) : Except Failure Requirement := do
  let s := Text.trim text.toList
  let name := frontName s
  if name.isEmpty then .error (.badRequirement text .name)
  let (extras, rest) ← splitExtras text (Text.trimLeft (s.drop name.length))
  let (url, specifiers, markerPart) ← readTarget text rest
  let bare : Requirement :=
    { name := String.ofList name, extras, specifiers, url, marker := none, markerText := none }
  match markerPart with
  | none => return bare
  | some part =>
    let markerText := String.ofList (Text.trim part)
    if markerText.isEmpty then .error (.badRequirement text .emptyMarker)
    return { bare with marker := some (← Marker.parse markerText), markerText := some markerText }

end Requirement

end DepClause
