import DepClause.Text.LowerCase.Table

/-!
# Lower case

The lower case of a text over the whole character set. One letter looks at its neighbours: a
capital sigma that ends a word becomes the final small sigma.
-/

namespace DepClause.Text

def inRuns (runs : List (Nat × Nat)) (c : Char) : Bool :=
  runs.any fun (first, last) => first ≤ c.toNat && c.toNat ≤ last

/-- The lower case of a letter that does not look at its neighbours. -/
def lowerChar (c : Char) : List Char :=
  if c.toNat < 0x80 then [c.toLower]
  else if c == '\u0130' then ['i', '\u0307']
  else
    match lowerRuns.find? fun (first, last, step, _) =>
        first ≤ c.toNat && c.toNat ≤ last && (c.toNat - first) % step == 0 with
    | some (first, _, _, image) => [Char.ofNat (image + (c.toNat - first))]
    | none => [c]

/-- Whether the nearest character that case mapping does not look through is a cased letter. -/
def meetsCased (s : List Char) : Bool :=
  match s.dropWhile (inRuns ignorableRuns) with
  | c :: _ => inRuns casedRuns c
  | [] => false

/-- Lower case of a text that stands after `before`, which is read from its end backwards. -/
def lowerAfter (before : List Char) : List Char → List Char
  | [] => []
  | c :: cs =>
    let lowered :=
      if c == '\u03A3' then
        if meetsCased before && !meetsCased cs then ['\u03C2'] else ['\u03C3']
      else lowerChar c
    lowered ++ lowerAfter (c :: before) cs

/-- The lower case of a text. -/
def lowerCase (s : String) : String := String.ofList (lowerAfter [] s.toList)

end DepClause.Text
