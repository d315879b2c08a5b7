import DepClause.Version.Basic

/-!
# Writing a version

Each version has one normal form: a zero epoch is left out, labels are short, and every number is
written without leading zeros.
-/

namespace DepClause

/-- The digits of a number. -/
def numeral (n : Nat) : List Char := Nat.toDigits 10 n

def LocalPart.chars : LocalPart → List Char
  | .number n => numeral n
  | .word w => w.toList

/-- Local parts with points between them. -/
def localChars (parts : List LocalPart) : List Char :=
  ['.'].intercalate (parts.map LocalPart.chars)

/-- A release with points between its numbers. -/
def releaseChars (release : List Nat) : List Char := ['.'].intercalate (release.map numeral)

def PreRelease.chars (p : PreRelease) : List Char := p.phase.label.toList ++ numeral p.number

namespace Version

/-- The characters of the normal form. -/
def chars (v : Version) : List Char :=
  (if v.epoch = 0 then [] else numeral v.epoch ++ ['!'])
    ++ releaseChars v.release
    ++ (match v.pre with | some p => p.chars | none => [])
    ++ (match v.post with | some n => ".post".toList ++ numeral n | none => [])
    ++ (match v.dev with | some n => ".dev".toList ++ numeral n | none => [])
    ++ (match v.localParts with | some parts => '+' :: localChars parts | none => [])

/-- The normal form of a version. -/
def render (v : Version) : String := String.ofList v.chars

end Version

end DepClause
