import PathSelection.Decimal.Fixed
import PathSelection.Scalar
/-!
Reading binary64 numbers from decimal text: an optional sign, then `inf`, `infinity` or `nan` in any
case, or digits with an optional point and an optional exponent. At least one digit stands before or
after the point, and after an exponent mark.
-/
namespace PathSelection.Decimal

/-- The value of a written magnitude: its digits as one number, times a power of ten. -/
structure Literal where
  digits : Nat
  power : Int
  deriving Repr, DecidableEq

/-- A leading sign and the rest; no sign counts as plus. -/
def splitSign : List Char → Bool × List Char
  | '-' :: cs => (true, cs)
  | '+' :: cs => (false, cs)
  | cs => (false, cs)

/-- The exponent at the end of a number: nothing, or a mark, a sign and at least one digit. -/
def readExponent? : List Char → Option Int
  | [] => some 0
  | mark :: cs =>
    if mark = 'e' ∨ mark = 'E' then
      let (negative, ds) := splitSign cs
      if ds ≠ [] ∧ ds.all Char.isDigit then
        some (if negative then -(digitsValue ds : Int) else digitsValue ds)
      else none
    else none

/-- A magnitude in decimal digits, if the whole text is one. -/
def readDecimal? (cs : List Char) : Option Literal :=
  let whole := cs.takeWhile Char.isDigit
  let rest := cs.dropWhile Char.isDigit
  let (places, tail) :=
    match rest with
    | '.' :: r => (r.takeWhile Char.isDigit, r.dropWhile Char.isDigit)
    | r => ([], r)
  if whole = [] ∧ places = [] then none
  else
    (readExponent? tail).map fun e =>
      ⟨digitsValue (whole ++ places), e - (places.length : Int)⟩

/-- The number nearest to a decimal. Far outside the range of binary64 the answer is known without
the power of ten: infinite above, zero below. -/
def Literal.toFloat (d : Literal) : Float :=
  let top := (digitCount d.digits : Int) + d.power
  if d.digits = 0 ∨ top < -330 then Float.ofBits 0
  else if 310 < top then Float.ofBits 0x7ff0000000000000
  else
    match d.power with
    | .ofNat p => ofFraction (d.digits * Nat.pow 10 p) 1
    | .negSucc p => ofFraction d.digits (Nat.pow 10 (p + 1))

/-- The number that a text stands for, if it is one. -/
def read? (cs : List Char) : Option Float :=
  let (negative, magnitude) := splitSign cs
  let name := String.ofList (magnitude.map Char.toLower)
  let value :=
    if name = "inf" ∨ name = "infinity" then some (Float.ofBits 0x7ff0000000000000)
    else if name = "nan" then some (Float.ofBits 0x7ff8000000000000)
    else (readDecimal? magnitude).map Literal.toFloat
  value.map fun x => if negative then -x else x

end PathSelection.Decimal

namespace PathSelection

instance : NumberText Float where
  plain := Decimal.plain
  fixed := Decimal.fixed
  read? := Decimal.read?

end PathSelection
