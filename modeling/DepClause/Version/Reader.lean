import DepClause.Failure
import DepClause.Text.Blank
import DepClause.Version.Basic

/-!
# Reading a version

Blanks around the text and the case of ASCII letters do not count. After an optional `v`, an epoch
and the release come the optional parts in their order. A label takes the separator and the digits
right behind it as its own number, so `1.0a-1` is an alpha and `1.0-1` a post-release. Each step
reads as far as it can: what it could give back can never be read by a later step.
-/

namespace DepClause.Version

/-- The characters that may stand before or behind a label and between local parts. -/
def isSeparator (c : Char) : Bool := c == '-' || c == '_' || c == '.'

/-- The text behind one separator, if it starts with one. -/
def dropSeparator : List Char → List Char
  | c :: cs => if isSeparator c then cs else c :: cs
  | [] => []

/-- The digits in front and what follows them. -/
def digits (s : List Char) : List Char × List Char :=
  (s.takeWhile Char.isDigit, s.dropWhile Char.isDigit)

def digitsValue (ds : List Char) : Nat := Nat.ofDigitChars 10 ds 0

/-- The number behind a label, with an optional separator between them; zero if there is none. -/
def labelNumber (s : List Char) : Nat × List Char :=
  let (ds, rest) := digits (dropSeparator s)
  (digitsValue ds, rest)

/-- The first label in front of the text, its meaning and what follows it. -/
def label? {α : Type} (labels : List (List Char × α)) (s : List Char) : Option (α × List Char) :=
  labels.findSome? fun (label, meaning) =>
    if label.isPrefixOf s then some (meaning, s.drop label.length) else none

/-- A label with an optional separator before it, and the number behind it. -/
def labelled? {α : Type} (labels : List (List Char × α)) (s : List Char) :
    Option (α × Nat × List Char) :=
  match label? labels (dropSeparator s) with
  | some (meaning, rest) =>
    let (n, rest) := labelNumber rest
    some (meaning, n, rest)
  | none => none

/-- The spellings of the phases. A longer one stands before a shorter one that starts it. -/
def phaseLabels : List (List Char × Phase) :=
  [(['a', 'l', 'p', 'h', 'a'], .alpha), (['a'], .alpha), (['b', 'e', 't', 'a'], .beta),
   (['b'], .beta), (['p', 'r', 'e', 'v', 'i', 'e', 'w'], .candidate),
   (['p', 'r', 'e'], .candidate), (['c'], .candidate), (['r', 'c'], .candidate)]

def postLabels : List (List Char × Unit) :=
  [(['p', 'o', 's', 't'], ()), (['r', 'e', 'v'], ()), (['r'], ())]

def devLabels : List (List Char × Unit) := [(['d', 'e', 'v'], ())]

def readEpoch (s : List Char) : Nat × List Char :=
  match digits s with
  | (d :: ds, '!' :: rest) => (digitsValue (d :: ds), rest)
  | _ => (0, s)

/-- The numbers of a release behind its first one, each after a point. -/
def readSegments : List Char → List Nat × List Char
  | '.' :: c :: cs =>
    if c.isDigit then
      let (ns, rest) := readSegments (cs.dropWhile Char.isDigit)
      (digitsValue (c :: cs.takeWhile Char.isDigit) :: ns, rest)
    else ([], '.' :: c :: cs)
  | s => ([], s)
termination_by s => s.length
decreasing_by
  have := Text.length_dropWhile_le Char.isDigit cs
  simp only [List.length_cons]
  omega

def readRelease? (s : List Char) : Option (List Nat × List Char) :=
  match digits s with
  | ([], _) => none
  | (ds, rest) =>
    let (ns, rest) := readSegments rest
    some (digitsValue ds :: ns, rest)

def readPre (s : List Char) : Option PreRelease × List Char :=
  match labelled? phaseLabels s with
  | some (phase, n, rest) => (some ⟨phase, n⟩, rest)
  | none => (none, s)

/-- A post-release: a hyphen and a number, or a label. -/
def readPost (s : List Char) : Option Nat × List Char :=
  let labelledPost :=
    match labelled? postLabels s with
    | some (_, n, rest) => (some n, rest)
    | none => (none, s)
  match s with
  | '-' :: cs =>
    match digits cs with
    | ([], _) => labelledPost
    | (ds, rest) => (some (digitsValue ds), rest)
  | _ => labelledPost

def readDev (s : List Char) : Option Nat × List Char :=
  match labelled? devLabels s with
  | some (_, n, rest) => (some n, rest)
  | none => (none, s)

def localPart (cs : List Char) : LocalPart :=
  if cs.all Char.isDigit then .number (digitsValue cs) else .word (String.ofList cs)

/-- The local parts, which reach to the end of the text: letters and digits with one separator
between two parts. -/
def readLocal? : List Char → Option (Option (List LocalPart))
  | [] => some none
  | '+' :: cs =>
    let parts := cs.splitOnP isSeparator
    if parts.all fun p => !p.isEmpty && p.all fun c => c.isDigit || c.isLower then
      some (some (parts.map localPart))
    else none
  | _ => none

/-- The version written by lower-case characters without blanks at the ends. -/
def ofChars? (s : List Char) : Option Version := do
  let s := match s with
    | 'v' :: rest => rest
    | _ => s
  let (epoch, s) := readEpoch s
  let (release, s) ← readRelease? s
  let (pre, s) := readPre s
  let (post, s) := readPost s
  let (dev, s) := readDev s
  let localParts ← readLocal? s
  return { epoch, release, pre, post, dev, localParts }

/-- The version that a text writes, if it writes one. -/
def parse? (text : String) : Option Version :=
  ofChars? ((Text.trim text.toList).map Char.toLower)

def parse (text : String) : Except Failure Version :=
  match parse? text with
  | some v => .ok v
  | none => .error (.malformedVersion text)

def isVersion (text : String) : Bool := (parse? text).isSome

end DepClause.Version
