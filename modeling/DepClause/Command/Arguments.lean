import DepClause.Text.Split
import DepClause.Text.Units

/-!
# Command line arguments

`scan` sorts the arguments of a command into its options, its operands and everything from the
first option on that it does not know. Options of its own are taken from among the unknown
arguments too. Two hyphens alone end the options.
-/

namespace DepClause.Command

/-- An option with its letter, its long name and, if it takes a value, the value's name. -/
structure OptionSpec where
  letter : Option Char := none
  name : String
  valueName : Option String := none
  deriving DecidableEq, Repr

namespace OptionSpec

def long (o : OptionSpec) : String := "--" ++ o.name

def takesValue (o : OptionSpec) : Bool := o.valueName.isSome

/-- The option as usage messages show it. -/
def flags (o : OptionSpec) : String :=
  (match o.letter with | some c => "-" ++ String.singleton c ++ ", " | none => "")
    ++ o.long
    ++ (match o.valueName with | some v => " <" ++ v ++ ">" | none => "")

/-- Whether an argument is the option itself. -/
def isNamed (o : OptionSpec) (arg : List Char) : Bool :=
  o.long.toList == arg || (match o.letter with | some c => ['-', c] == arg | none => false)

end OptionSpec

/-- What is wrong with the arguments. -/
inductive UsageFault where
  | missingValue (flags : String)
  | missingArgument (name : String)
  | unknownOption (flag : String) (similar : List String)
  | unknownCommand (name : String) (similar : List String)
  deriving DecidableEq, Repr

/-- The likely meanings of a word that is not known. -/
def suggestion : List String → String
  | [] => ""
  | [word] => "\n(Did you mean " ++ word ++ "?)"
  | words => "\n(Did you mean one of " ++ ", ".intercalate words ++ "?)"

def UsageFault.message : UsageFault → String
  | .missingValue flags => "error: option '" ++ flags ++ "' argument missing"
  | .missingArgument name => "error: missing required argument '" ++ name ++ "'"
  | .unknownOption flag similar => "error: unknown option '" ++ flag ++ "'" ++ suggestion similar
  | .unknownCommand name similar => "error: unknown command '" ++ name ++ "'" ++ suggestion similar

/-- Arguments sorted by a command. A taken option has its name and its value. -/
structure Scanned where
  taken : List (String × Option String) := []
  operands : List (List Char) := []
  unknown : List (List Char) := []
  deriving DecidableEq, Repr

namespace Scanned

def take (s : Scanned) (o : OptionSpec) (value : Option (List Char)) : Scanned :=
  { s with taken := (o.name, value.map String.ofList) :: s.taken }

/-- An argument that is no option of the command. -/
def push (s : Scanned) (toUnknown : Bool) (args : List (List Char)) : Scanned :=
  if toUnknown then { s with unknown := args ++ s.unknown }
  else { s with operands := args ++ s.operands }

end Scanned

/-- The option in front of an argument that holds its value too, behind a letter or an equals
sign. -/
def joined? (options : List OptionSpec) (arg : List Char) : Option (OptionSpec × List Char) :=
  match arg with
  | '-' :: '-' :: _ =>
    match Text.splitFirst? '=' arg with
    | some (flag, value) =>
      (options.find? fun o => o.takesValue && flag.length > 2 && o.isNamed flag).map (·, value)
    | none => none
  | '-' :: c :: value =>
    if value.isEmpty then none
    else (options.find? fun o => o.takesValue && o.isNamed ['-', c]).map (·, value)
  | _ => none

/-- The flag in front of a group of letters. -/
def grouped? (options : List OptionSpec) (c : Char) (rest : List Char) : Option OptionSpec :=
  if c == '-' || rest.isEmpty then none
  else options.find? fun o => !o.takesValue && o.isNamed ['-', c]

/-- The arguments sorted, with everything from the first unknown option on marked as such. -/
def scan (options : List OptionSpec) (toUnknown : Bool) :
    List (List Char) → Except UsageFault Scanned
  | [] => .ok {}
  | arg :: rest =>
    if arg == ['-', '-'] then
      .ok (({} : Scanned).push toUnknown (if toUnknown then arg :: rest else rest))
    else
      match options.find? fun o => o.isNamed arg with
      | some o =>
        if o.takesValue then
          match rest with
          | [] => .error (.missingValue o.flags)
          | value :: rest => (scan options toUnknown rest).map fun s => s.take o (some value)
        else (scan options toUnknown rest).map fun s => s.take o none
      | none =>
        match joined? options arg with
        | some (o, value) => (scan options toUnknown rest).map fun s => s.take o (some value)
        | none =>
          match arg with
          | '-' :: c :: more =>
            match grouped? options c more with
            | some o =>
              (scan options toUnknown (('-' :: more) :: rest)).map fun s => s.take o none
            | none => (scan options true rest).map fun s => s.push true [arg]
          | _ => (scan options toUnknown rest).map fun s => s.push toUnknown [arg]
termination_by args => args.flatten.length + args.length
decreasing_by
  all_goals
    simp only [List.flatten_cons, List.length_append, List.length_cons]
    omega

/-! ### Suggestions -/

/-- The number of insertions, deletions, changes and swaps of neighbours that lead from one word to
another, where no part is edited twice. It is found column by column; each column stands for one
more unit of the second word. -/
def editDistance (a b : List Nat) : Nat :=
  let a := a.toArray
  let b := b.toArray
  let step (columns : Array Nat × Array Nat) (j : Nat) : Array Nat × Array Nat :=
    let (before, above) := columns
    let column := (List.range a.size).foldl (fun column i =>
      let cost := if a[i]? = b[j]? then 0 else 1
      let plain := min (min (column.getD i 0 + 1) (above.getD (i + 1) 0 + 1)) (above.getD i 0 + cost)
      let swapped := 0 < i ∧ 0 < j ∧ a[i]? = b[j - 1]? ∧ a[i - 1]? = b[j]?
      column.push (if swapped then min plain (before.getD (i - 1) 0 + 1) else plain)) #[j + 1]
    (above, column)
  let (_, last) := (List.range b.size).foldl step (#[], Array.range (a.size + 1))
  last.getD a.size 0

/-- The distance of two words, of which the longer length stands for a distance if the lengths
differ by more than three. -/
def wordDistance (a b : List Nat) : Nat :=
  if a.length > b.length + 3 ∨ b.length > a.length + 3 then max a.length b.length
  else editDistance a b

/-- The candidates nearest to a word: at most three edits away and with more than two fifths of the
longer word left alone. Words of one letter are not suggested. -/
def nearest (word : String) (candidates : List String) : List String :=
  let w := Text.units word.toList
  let rated := candidates.eraseDups.filterMap fun candidate =>
    let c := Text.units candidate.toList
    let d := wordDistance w c
    let length := max w.length c.length
    if 1 < c.length ∧ d ≤ 3 ∧ 2 * length < 5 * (length - d) then some (d, candidate) else none
  let best := (rated.map Prod.fst).foldl min 3
  ((rated.filter fun r => r.1 == best).map Prod.snd).mergeSort fun a b => decide (a ≤ b)

/-- The candidates nearest to a word. Behind two hyphens, which all of them are taken to have then,
only the rest of the words counts. -/
def similar (word : String) (candidates : List String) : List String :=
  match word.toList with
  | '-' :: '-' :: rest =>
    let bare := candidates.map fun c => String.ofList (c.toList.drop 2)
    (nearest (String.ofList rest) bare).map ("--" ++ ·)
  | _ => nearest word candidates

/-- The long options nearest to a flag, if the flag is a long one. -/
def similarFlags (flag : String) (options : List OptionSpec) : List String :=
  if flag.startsWith "--" then similar flag (options.map OptionSpec.long) else []

end DepClause.Command
