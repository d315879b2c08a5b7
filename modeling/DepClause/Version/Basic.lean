/-!
# Versions

A version of the packaging index: an epoch, a release, and the optional pre-release, post-release,
development and local parts. Its numbers have no bound.
-/

namespace DepClause

/-- The phases before a release, in their order. -/
inductive Phase where
  | alpha
  | beta
  | candidate
  deriving DecidableEq, Repr

/-- The letters that write a phase. -/
def Phase.label : Phase → String
  | .alpha => "a"
  | .beta => "b"
  | .candidate => "rc"

def Phase.rank : Phase → Nat
  | .alpha => 0
  | .beta => 1
  | .candidate => 2

structure PreRelease where
  phase : Phase
  number : Nat
  deriving DecidableEq, Repr

/-- One part of a local version: a number if it is all digits. -/
inductive LocalPart where
  | number (n : Nat)
  | word (w : String)
  deriving DecidableEq, Repr

structure Version where
  epoch : Nat := 0
  release : List Nat
  pre : Option PreRelease := none
  post : Option Nat := none
  dev : Option Nat := none
  localParts : Option (List LocalPart) := none
  deriving DecidableEq, Repr

/-- A release without its trailing zeros, of which the first `least` numbers stay. -/
def trimZeros : Nat → List Nat → List Nat
  | _, [] => []
  | least, n :: ns =>
    match trimZeros (least - 1) ns with
    | [] => if n = 0 ∧ least = 0 then [] else [n]
    | rest => n :: rest

namespace Version

/-- The version without its local part. -/
def withoutLocal (v : Version) : Version := { v with localParts := none }

/-- The epoch and the release alone. -/
def base (v : Version) : Version := { epoch := v.epoch, release := v.release }

/-- Whether the version comes before the release that it names. -/
def isPreRelease (v : Version) : Bool := v.pre.isSome || v.dev.isSome

def isPostRelease (v : Version) : Bool := v.post.isSome

def isLocal (v : Version) : Bool := v.localParts.isSome

end Version

end DepClause
