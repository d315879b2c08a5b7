import DepClause.Converter
import DepClause.Glob
import DepClause.Metadata

/-!
# Dependency tags

The dependencies of a package by kind, and the tag lines that list them. An extra that a pattern
selects is active for the kind that the pattern belongs to.
-/

namespace DepClause

/-- What goes into the tags besides the metadata. -/
structure TagPolicy where
  /-- Entries added as they are. -/
  requires : List String
  suggests : List String
  /-- Patterns for the extras of each kind. -/
  requiresExtras : List String
  suggestsExtras : List String
  /-- The tag of optional dependencies; an empty one leaves them out. -/
  optionalTag : String
  /-- Taken instead of the interpreter version of the metadata. -/
  pythonVersion : Option String
  abiCapability : String
  style : ClauseStyle

structure DependencySet where
  buildRequires : List String
  requires : List String
  optional : List String
  deriving DecidableEq, Repr

namespace TagPolicy

/-- The clause for the interpreter version, if one is asked for. -/
def interpreter (p : TagPolicy) (m : Metadata) : Except Failure (List String) :=
  match p.pythonVersion.orElse fun _ => m.requiresPython with
  | none => .ok []
  | some version =>
    if (trim version).isEmpty then .ok []
    else do return [← p.style.capability p.abiCapability (← Specifier.parseAll version)]

/-- The dependencies of a package. An optional one that is also required is left out. -/
def collect (p : TagPolicy) (c : Converter) (m : Metadata) : Logged Failure DependencySet := do
  let requiresExtras := Glob.select p.requiresExtras m.providesExtra
  let suggestsExtras := Glob.select p.suggestsExtras m.providesExtra
  Logged.note .debug "extra 선택"
    [("requires", .ofTexts requiresExtras), ("suggests", .ofTexts suggestsExtras)]
  let buildRequires ← c.convert [] m.buildRequires
  let converted ← c.convert requiresExtras m.requiresDist
  let interpreter ← Logged.of (p.interpreter m)
  let requires := p.requires ++ converted ++ interpreter
  let suggested ← c.convert suggestsExtras m.requiresDist
  let optional := (p.suggests ++ suggested).filter fun clause => !requires.contains clause
  return { buildRequires, requires, optional }

/-- A tag line, if there is something to list. -/
def tagLine (tag : String) (clauses : List String) : List String :=
  if clauses.isEmpty then [] else [tag ++ ": " ++ ", ".intercalate clauses]

/-- The tag lines of a package. -/
def lines (p : TagPolicy) (c : Converter) (m : Metadata) : Logged Failure (List String) := do
  let s ← p.collect c m
  return tagLine "BuildRequires" s.buildRequires ++ tagLine "Requires" s.requires
    ++ (if p.optionalTag.isEmpty then [] else tagLine p.optionalTag s.optional)

end TagPolicy

end DepClause
