namespace PathSelection.Decimal

/-- The natural number nearest to `num / den`; a quotient halfway between two goes to the even
one. -/
def nearestEven (num den : Nat) : Nat :=
  let floor := num / den
  let twice := 2 * (num % den)
  if twice < den then floor
  else if den < twice then floor + 1
  else if floor % 2 = 0 then floor
  else floor + 1

/-- A binary64 number taken apart; a finite one is `±significand * 2 ^ exponent`. -/
inductive Parts where
  | nan
  | infinite (negative : Bool)
  | finite (negative : Bool) (significand : Nat) (exponent : Int)
  deriving Repr, DecidableEq

/-- The least significand of a normal number, `2 ^ 52`; below it lie the fractions that the bits of
a number hold. -/
def normalUnit : Nat := 0x10000000000000

/-- The parts that a bit pattern stands for. -/
def Parts.ofBits (bits : UInt64) : Parts :=
  let n := bits.toNat
  let negative := decide (0x8000000000000000 ≤ n)
  let biased : Nat := n / normalUnit % 2048
  let fraction : Nat := n % normalUnit
  if biased = 2047 then
    if fraction = 0 then .infinite negative else .nan
  else if biased = 0 then .finite negative fraction (-1074)
  else .finite negative (fraction + normalUnit) ((biased : Int) - 1075)

def parts (x : Float) : Parts := Parts.ofBits x.toBits

/-- A fraction equal to `significand * 2 ^ exponent`. -/
def fraction (significand : Nat) (exponent : Int) : Nat × Nat :=
  match exponent with
  | .ofNat e => (significand * Nat.pow 2 e, 1)
  | .negSucc e => (significand, Nat.pow 2 (e + 1))

/-- The power of two by which `num / den` is divided before it is rounded to a significand. It
leaves 53 binary digits before the point, fewer only below the smallest normal number. -/
def unitExponent (num den : Nat) : Int :=
  let guess : Int := (Nat.log2 num : Int) - (Nat.log2 den : Int)
  let (low, _) := fraction den guess
  let tooBig : Bool :=
    match guess with
    | .ofNat _ => num < low
    | .negSucc e => num * Nat.pow 2 (e + 1) < den
  let unit := if tooBig then guess - 53 else guess - 52
  if unit < -1074 then -1074 else unit

/-- The binary64 number nearest to the fraction `num / den`, of two equally near ones the one with
the even significand; a fraction beyond the largest number is infinite. -/
def ofFraction (num den : Nat) : Float :=
  if num = 0 then Float.ofBits 0
  else
    let unit := unitExponent num den
    let significand :=
      match unit with
      | .ofNat e => nearestEven num (den * Nat.pow 2 e)
      | .negSucc e => nearestEven (num * Nat.pow 2 (e + 1)) den
    let bits := significand + (unit + 1074).toNat * normalUnit
    Float.ofBits (Nat.min bits (2047 * normalUnit)).toUInt64

/-- The rational number that a finite number is. -/
def toRat? (x : Float) : Option Rat :=
  match parts x with
  | .nan | .infinite _ => none
  | .finite negative significand exponent =>
    let (num, den) := fraction significand exponent
    some (mkRat (if negative then -(num : Int) else num) den)

/-- The number nearest to a rational number, of two equally near ones the one with the even
significand. -/
def ofRat (q : Rat) : Float :=
  let magnitude := ofFraction q.num.natAbs q.den
  if q.num < 0 then -magnitude else magnitude

end PathSelection.Decimal
