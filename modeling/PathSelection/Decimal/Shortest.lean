import PathSelection.Decimal.Binary
import PathSelection.Decimal.Digits

namespace PathSelection.Decimal

/-- The numbers between `low` and `high` round to `value`; all three are over the same denominator.
The ends belong to the interval when the significand is even. -/
structure RoundingInterval where
  low : Nat
  value : Nat
  high : Nat
  denominator : Nat
  closed : Bool

/-- The interval of the positive number `significand * 2 ^ exponent`. Below a power of two the next
number is only half as far away, unless the numbers are already at their smallest distance. -/
def RoundingInterval.of (significand : Nat) (exponent : Int) : RoundingInterval :=
  let below := if significand = normalUnit ∧ -1074 < exponent then 1 else 2
  let (scale, denominator) := fraction 1 (exponent - 2)
  { low := (4 * significand - below) * scale
    value := 4 * significand * scale
    high := (4 * significand + 2) * scale
    denominator := denominator
    closed := significand % 2 = 0 }

/-- The multiples of `10 ^ power` are counted: `count * 10 ^ power` lies in the interval. -/
def RoundingInterval.holds (r : RoundingInterval) (power : Int) (count : Nat) : Bool :=
  let (left, right) :=
    match power with
    | .ofNat p => (count * Nat.pow 10 p * r.denominator, 1)
    | .negSucc p => (count * r.denominator, Nat.pow 10 (p + 1))
  if r.closed then r.low * right ≤ left && left ≤ r.high * right
  else r.low * right < left && left < r.high * right

/-- The multiple of `10 ^ power` to print, if one of the two neighbours of the value is in the
interval: the nearer one when both are, the larger one when they are equally near. -/
def RoundingInterval.neighbour? (r : RoundingInterval) (power : Int) : Option Nat :=
  let (num, den) :=
    match power with
    | .ofNat p => (r.value, r.denominator * Nat.pow 10 p)
    | .negSucc p => (r.value * Nat.pow 10 (p + 1), r.denominator)
  let floor := num / den
  let rest := num % den
  match r.holds power floor, r.holds power (floor + 1) with
  | true, true => some (if 2 * rest < den then floor else floor + 1)
  | true, false => some floor
  | false, true => some (floor + 1)
  | false, false => none

/-- The first grid `10 ^ (top - 1), 10 ^ (top - 2), …` with a neighbour in the interval. Seventeen
digits always suffice. -/
def RoundingInterval.search (r : RoundingInterval) : Nat → Int → Nat × Int
  | 0, power => (r.value * Nat.pow 10 power.natAbs / r.denominator, power)
  | fuel + 1, power =>
    match r.neighbour? power with
    | some count => (count, power)
    | none => r.search fuel (power - 1)

/-- The digits and the power of ten of the shortest text of a positive number. -/
def shortest (significand : Nat) (exponent : Int) : List Char × Int :=
  let r := RoundingInterval.of significand exponent
  let (count, power) := r.search 17 (magnitude r.value r.denominator - 1)
  let ds := digits count
  let kept := dropTrailingZeros ds
  (kept, power + (ds.length - kept.length : Nat))

/-- A sign in front of the text of a magnitude. -/
def signed (negative : Bool) (cs : List Char) : List Char := if negative then '-' :: cs else cs

/-- The shortest text of a number; negative zero keeps its sign. -/
def plain (x : Float) : String :=
  match parts x with
  | .nan => "NaN"
  | .infinite negative => String.ofList (signed negative "inf".toList)
  | .finite negative 0 _ => String.ofList (signed negative ['0'])
  | .finite negative significand exponent =>
    let (ds, power) := shortest significand exponent
    String.ofList (signed negative (positional ds power))

end PathSelection.Decimal
