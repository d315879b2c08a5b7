import DepClause.Failure
import DepClause.Text.Blank
import DepClause.Text.LowerCase
import DepClause.Text.Split

/-!
# Package metadata

What a package says of itself: its name, version, requirements and extras. It is read from a header
text or from a JSON document.
-/

namespace DepClause

structure Metadata where
  name : Option String := none
  version : Option String := none
  requiresPython : Option String := none
  requiresDist : List String := []
  providesExtra : List String := []
  buildRequires : List String := []
  deriving DecidableEq, Repr

namespace Metadata

def isWordChar (c : Char) : Bool := c.isAlphanum || c == '_'

/-- The name and the rest of a text that starts with a comparison of `extra` with a quoted name.
The name is not empty and holds no quote of either kind. -/
def extraComparison? (s : List Char) : Option (List Char × List Char) := do
  guard ("extra".toList.isPrefixOf s)
  let s := Text.trimLeft (s.drop 5)
  guard ("==".toList.isPrefixOf s)
  match Text.trimLeft (s.drop 2) with
  | q :: rest =>
    guard (q == '"' || q == '\'')
    let name := rest.takeWhile fun c => c != '"' && c != '\''
    guard (!name.isEmpty && (rest.drop name.length).head? == some q)
    return (name, rest.drop (name.length + 1))
  | [] => none

/-- The names that a text compares with `extra`, from left to right. `inWord` says that a word
character stands before the text, so that no word starts here. The fuel bounds the steps; the length
of the text is enough. -/
def comparedExtras (inWord : Bool) : Nat → List Char → List String
  | fuel + 1, c :: cs =>
    match if inWord then none else extraComparison? (c :: cs) with
    | some (name, rest) => String.ofList name :: comparedExtras false fuel rest
    | none => comparedExtras (isWordChar c) fuel cs
  | _, _ => []

/-- The extras that requirements name in their markers, each once, in order. -/
def extrasOf (requirements : List String) : List String :=
  (requirements.flatMap fun r => comparedExtras false r.length r.toList).eraseDups

/-- Metadata with the value of one header field. Fields that are not known do not count. -/
def withField (m : Metadata) (field : String) (value : String) : Metadata :=
  match field with
  | "name" => { m with name := some value }
  | "version" => { m with version := some value }
  | "requires-python" => { m with requiresPython := some value }
  | "requires-dist" => { m with requiresDist := m.requiresDist ++ [value] }
  | "provides-extra" => { m with providesExtra := m.providesExtra ++ [value] }
  | _ => m

/-- Metadata with one header line. An indented line belongs to the field before it and is left
out. -/
def withLine (m : Metadata) (line : List Char) : Metadata :=
  match line with
  | [] => m
  | c :: _ =>
    if Text.isBlank c then m
    else
      match Text.splitFirst? ':' line with
      | none => m
      | some (field, value) =>
        m.withField (Text.lowerCase (String.ofList (Text.trim field)))
          (String.ofList (Text.trim value))

/-- The header lines of a text: those before the first blank line. -/
def headerLines (text : String) : List (List Char) :=
  (Text.lines text.toList).takeWhile fun line => !(Text.trim line).isEmpty

/-- The metadata that a header text holds. Without a list of extras the markers name them. -/
def parseText (text : String) : Metadata :=
  let m := (headerLines text).foldl withLine {}
  if m.providesExtra.isEmpty then { m with providesExtra := extrasOf m.requiresDist } else m

/-- The first of the members that is a text. -/
def textMember? (source : Json) (names : List String) : Option String :=
  names.findSome? fun name => (source.member? name).bind Json.asText?

/-- The first of the members that is there and not `null`, which must be an array of texts. -/
def textsMember? (source : Json) : List String → Except Failure (Option (List String))
  | [] => .ok none
  | name :: names =>
    match source.member? name with
    | none | some .null => textsMember? source names
    | some v =>
      match v.asTexts? with
      | some items => .ok (some items)
      | none => .error (.badSetting name .notTexts)

/-- The metadata that a document holds, in itself or in its member `info`. -/
def ofJson (raw : Json) : Except Failure Metadata := do
  match raw with
  | .object _ => pure ()
  | _ => .error (.badSetting "(metadata)" .metadata)
  let source := match raw.member? "info" with
    | some (.object members) => .object members
    | _ => raw
  let requiresDist := (← textsMember? source ["requiresDist", "requires_dist"]).getD []
  let provided ← textsMember? source ["providesExtra", "provides_extra"]
  let buildRequires := (← textsMember? raw ["buildRequires", "build_requires"]).getD []
  return {
    name := textMember? source ["name"]
    version := textMember? source ["version"]
    requiresPython := textMember? source ["requiresPython", "requires_python"]
    requiresDist
    providesExtra := provided.getD (extrasOf requiresDist)
    buildRequires }

end Metadata

end DepClause
