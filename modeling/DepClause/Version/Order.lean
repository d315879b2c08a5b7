import DepClause.Text.Units
import DepClause.Version.Reader

/-!
# The order of versions

Versions compare by epoch, by release without trailing zeros, and then part by part. For one
release the order is: development only, pre-releases, the release, post-releases. A development
version comes before the version it leads to, and a local version after its public one.
-/

namespace DepClause

/-- A word comes before every number, words go by their UTF-16 units. -/
def LocalPart.compare : LocalPart → LocalPart → Ordering
  | .number m, .number n => Ord.compare m n
  | .number _, .word _ => .gt
  | .word _, .number _ => .lt
  | .word v, .word w => Text.compareUnits v w

/-- Local parts one by one; a proper prefix comes first. -/
def compareLocals (a b : List LocalPart) : Ordering := List.compareLex LocalPart.compare a b

namespace Version

/-- Releases without their trailing zeros, number by number; a proper prefix comes first. -/
def compareRelease (a b : Version) : Ordering :=
  List.compareLex Ord.compare (trimZeros 1 a.release) (trimZeros 1 b.release)

/-- Where a version stands among the pre-releases of its release: a development version of the
release itself before them, everything else behind them. -/
def preRank (v : Version) : Nat :=
  if v.pre.isSome then 1 else if v.post.isNone && v.dev.isSome then 0 else 2

def comparePre (a b : Version) : Ordering :=
  (Ord.compare a.preRank b.preRank).then
    (match a.pre, b.pre with
      | some p, some q => (Ord.compare p.phase.rank q.phase.rank).then (Ord.compare p.number q.number)
      | _, _ => .eq)

/-- A post-release comes after its release. -/
def comparePost (a b : Version) : Ordering :=
  match a.post, b.post with
  | none, none => .eq
  | none, some _ => .lt
  | some _, none => .gt
  | some m, some n => Ord.compare m n

/-- A development version comes before the version it leads to. -/
def compareDev (a b : Version) : Ordering :=
  match a.dev, b.dev with
  | none, none => .eq
  | none, some _ => .gt
  | some _, none => .lt
  | some m, some n => Ord.compare m n

/-- A local version comes after its public version. -/
def compareLocal (a b : Version) : Ordering :=
  match a.localParts, b.localParts with
  | none, none => .eq
  | none, some _ => .lt
  | some _, none => .gt
  | some ps, some qs => compareLocals ps qs

def compare (a b : Version) : Ordering :=
  (Ord.compare a.epoch b.epoch).then <|
    (compareRelease a b).then <|
      (comparePre a b).then <|
        (comparePost a b).then <|
          (compareDev a b).then (compareLocal a b)

/-- Versions in ascending order; equal ones keep their order. -/
def sort {α : Type} (key : α → Version) (items : List α) : List α :=
  items.mergeSort fun a b => (compare (key a) (key b)).isLE

/-- Literals paired with the versions that they write. The first comparison of a sort reads the
second literal before the first, so of two malformed ones the second is reported. -/
def readAll : List String → Except Failure (List (String × Version))
  | first :: second :: rest => do
    let w ← parse second
    let v ← parse first
    let rest ← rest.mapM fun text => do return (text, ← parse text)
    return (first, v) :: (second, w) :: rest
  | texts => texts.mapM fun text => do return (text, ← parse text)

/-- Literals in the order of their versions. Less than two are left as they are, unread. -/
def sortLiterals (texts : List String) : Except Failure (List String) :=
  match texts with
  | [] | [_] => .ok texts
  | _ => (readAll texts).map fun pairs => (sort Prod.snd pairs).map Prod.fst

end Version

end DepClause
