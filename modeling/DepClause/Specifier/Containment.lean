import DepClause.Specifier.Basic
import DepClause.Text.LowerCase

/-!
# What a specifier contains

`Specifier.contains` decides whether a candidate version meets a specifier.
-/

namespace DepClause

namespace Version

/-- Whether the release of `v` starts with the numbers of `front`; missing numbers count as
zero. -/
def hasPrefix : List Nat → List Nat → Bool
  | _, [] => true
  | [], n :: ns => n == 0 && hasPrefix [] ns
  | m :: ms, n :: ns => m == n && hasPrefix ms ns

/-- Whether two versions have one epoch and equal releases. -/
def sameBase (a b : Version) : Bool := compare a.base b.base == .eq

/-- Whether `v` has the epoch of `front` and a release that starts with its release. -/
def matchesPrefix (v front : Version) : Bool :=
  v.epoch == front.epoch && hasPrefix v.release front.release

end Version

namespace Comparator

/-- Whether `candidate` meets the operator and the version `target`. A public target is compared
with the public candidate. `<` leaves out the pre-releases of its target and `>` its post-releases
and local versions, unless the target is one itself. `===` compares texts, so versions never meet
it. -/
def holds (op : Comparator) (wildcard : Bool) (candidate target : Version) : Bool :=
  let equal :=
    if wildcard then candidate.matchesPrefix target
    else
      let c := if target.isLocal then candidate else candidate.withoutLocal
      Version.compare c target == .eq
  match op with
  | .equal => equal
  | .notEqual => !equal
  | .less =>
    if !target.isPreRelease && candidate.isPreRelease && candidate.sameBase target then false
    else Version.compare candidate target == .lt
  | .atMost => (Version.compare candidate.withoutLocal target).isLE
  | .greater =>
    if !target.isPostRelease && candidate.isPostRelease && candidate.sameBase target then false
    else if candidate.isLocal && candidate.sameBase target then false
    else Version.compare candidate target == .gt
  | .atLeast => (Version.compare candidate.withoutLocal target).isGE
  | .compatible =>
    (Version.compare candidate target).isGE &&
      candidate.matchesPrefix { epoch := target.epoch, release := target.release.dropLast }
  | .identical => false

end Comparator

namespace Specifier

/-- Whether the candidate meets the specifier. `===` compares the texts without regard to case; the
other operators compare versions, of which the candidate is read first. -/
def contains (s : Specifier) (candidate : String) : Except Failure Bool := do
  if s.operator = .identical then
    return Text.lowerCase (trim candidate) == Text.lowerCase s.version
  let c ← Version.parse candidate
  let target ← Version.parse s.version
  if s.operator = .compatible then
    let _ ← upperBound target (some s.render)
  return s.operator.holds s.wildcard c target

end Specifier

end DepClause
