/-!
# Numbers of a data document

A number is read as the nearest binary floating-point value of 53 significant bits and written
with the fewest decimal digits that read back as that value. Everything is exact arithmetic on
naturals.
-/

namespace DepClause.Json

/-- A value `mantissa * 2 ^ exponent` with its sign, or one beyond the largest such value. Zero
has no sign. -/
inductive Number where
  | finite (negative : Bool) (mantissa : Nat) (exponent : Int)
  | infinite (negative : Bool)
  deriving DecidableEq, Repr

namespace Number

def zero : Number := .finite false 0 0

/-- The least exponent, that of the smallest value above zero. -/
def leastExponent : Int := -1074

/-- The largest exponent of a mantissa of 53 bits. -/
def greatestExponent : Int := 971

/-- The quotient `num / den` rounded to a natural, a half going to the even neighbour. -/
def roundDiv (num den : Nat) : Nat :=
  let q := num / den
  let r := num % den
  if 2 * r < den then q else if den < 2 * r then q + 1 else if q % 2 = 0 then q else q + 1

/-- Numerator and denominator of `num / den` divided by `2 ^ e`. -/
def scaleBy (num den : Nat) (e : Int) : Nat × Nat :=
  if 0 ≤ e then (num, den * Nat.pow 2 e.toNat) else (num * Nat.pow 2 (-e).toNat, den)

/-- The value nearest to `num / den`, for positive `num` and `den`. -/
def ofRatio (negative : Bool) (num den : Nat) : Number :=
  let guess : Int := max leastExponent ((num.log2 : Int) - den.log2 - 52)
  let (n, d) := scaleBy num den guess
  let e := if n / d < Nat.pow 2 52 then max leastExponent (guess - 1) else guess
  let (n, d) := scaleBy num den e
  let m := roundDiv n d
  let (m, e) := if m = Nat.pow 2 53 then (Nat.pow 2 52, e + 1) else (m, e)
  if m = 0 then zero
  else if greatestExponent < e then .infinite negative
  else .finite negative m e

/-- The value nearest to `digits * 10 ^ exponent`. -/
def ofDecimal (negative : Bool) (digits : Nat) (exponent : Int) : Number :=
  let size : Int := (Nat.toDigits 10 digits).length + exponent
  if digits = 0 ∨ size < -400 then zero
  else if 400 < size then .infinite negative
  else if 0 ≤ exponent then ofRatio negative (digits * Nat.pow 10 exponent.toNat) 1
  else ofRatio negative digits (Nat.pow 10 (-exponent).toNat)

/-- Four times `mantissa * 2 ^ exponent` and the ends of the interval that rounds to it, over a
common denominator: lower end, value, upper end, denominator. -/
def interval (mantissa : Nat) (exponent : Int) : Nat × Nat × Nat × Nat :=
  let below := if mantissa = Nat.pow 2 52 ∧ leastExponent < exponent then 1 else 2
  let scale := if 0 ≤ exponent then Nat.pow 2 exponent.toNat else 1
  let den := if 0 ≤ exponent then 4 else 4 * Nat.pow 2 (-exponent).toNat
  ((4 * mantissa - below) * scale, 4 * mantissa * scale, (4 * mantissa + 2) * scale, den)

/-- The multiple of `10 ^ place` nearest to the value among its two neighbours on that grid that
lie in the interval, as a count of `10 ^ place`. -/
def onGrid? (mantissa : Nat) (exponent place : Int) : Option Nat :=
  let (low, value, high, den) := interval mantissa exponent
  let up := Nat.pow 10 (-place).toNat
  let unit := den * Nat.pow 10 place.toNat
  let (low, value, high) := (low * up, value * up, high * up)
  let inside (n : Nat) : Bool :=
    if mantissa % 2 = 0 then low ≤ n * unit && n * unit ≤ high
    else low < n * unit && n * unit < high
  let floor := value / unit
  let nearest := roundDiv value unit
  let other := if nearest = floor then floor + 1 else floor
  if 0 < nearest ∧ inside nearest then some nearest
  else if 0 < other ∧ inside other then some other
  else none

/-- The number of digits before the decimal point of a value of at least one, and minus the number
of zeros after it otherwise: the value lies in `[10 ^ (k - 1), 10 ^ k)`. -/
def magnitude (mantissa : Nat) (exponent : Int) : Int :=
  if 0 ≤ exponent then (Nat.toDigits 10 (mantissa * Nat.pow 2 exponent.toNat)).length
  else
    let den := Nat.pow 2 (-exponent).toNat
    if den ≤ mantissa then (Nat.toDigits 10 (mantissa / den)).length
    else 1 - (Nat.toDigits 10 ((den - 1) / mantissa)).length

/-- The fewest digits that read back, and the power of ten of the last one. -/
def shortest (mantissa : Nat) (exponent : Int) : Nat × Int :=
  let k := magnitude mantissa exponent
  ((List.range 17).findSome? fun (i : Nat) =>
    let place := k - (i + 1 : Nat)
    (onGrid? mantissa exponent place).map (·, place)).getD (0, 0)

/-- Digits without their trailing zeros. -/
def significant (digits : Nat) : List Char :=
  ((Nat.toDigits 10 digits).reverse.dropWhile (· == '0')).reverse

/-- The digits of a value whose decimal point stands after `point` of them. Up to 21 places before
the point and up to 6 zeros after it are written out, other values take an exponent. -/
def layOut (digits : List Char) (point : Int) : List Char :=
  let n : Int := digits.length
  if n ≤ point ∧ point ≤ 21 then digits ++ List.replicate (point - n).toNat '0'
  else if 0 < point ∧ point ≤ 21 then
    digits.take point.toNat ++ '.' :: digits.drop point.toNat
  else if -6 < point ∧ point ≤ 0 then
    '0' :: '.' :: List.replicate (-point).toNat '0' ++ digits
  else
    let e := point - 1
    let mark := 'e' :: (if e < 0 then '-' else '+') :: Nat.toDigits 10 e.natAbs
    match digits with
    | [d] => d :: mark
    | d :: ds => d :: '.' :: ds ++ mark
    | [] => []

/-- The text of a number. -/
def render : Number → String
  | .infinite negative => if negative then "-Infinity" else "Infinity"
  | .finite negative mantissa exponent =>
    if mantissa = 0 then "0"
    else
      let (digits, place) := shortest mantissa exponent
      let point : Int := (Nat.toDigits 10 digits).length + place
      String.ofList ((if negative then ['-'] else []) ++ layOut (significant digits) point)

end Number

end DepClause.Json
