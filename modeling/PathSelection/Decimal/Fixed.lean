import PathSelection.Decimal.Shortest

namespace PathSelection.Decimal

/-- The text of `num / den` rounded to the given number of places. -/
def fixedFraction (places num den : Nat) : List Char :=
  let count := nearestEven (num * Nat.pow 10 places) den
  positional (paddedDigits (places + 1) count) (-(places : Int))

/-- A number with the given number of digits after the point; a negative number keeps its sign also
when it rounds to zero. -/
def fixed (places : Nat) (x : Float) : String :=
  match parts x with
  | .nan => "NaN"
  | .infinite negative => String.ofList (signed negative "inf".toList)
  | .finite negative significand exponent =>
    let (num, den) := fraction significand exponent
    String.ofList (signed negative (fixedFraction places num den))

/-- The text of `count * 10 ^ (power - places)` with `places` digits after the first one, where
`count` has at most `places + 2` digits and ends in zero if it has that many. -/
def scientificDigits (places count : Nat) (power : Int) : List Char :=
  let full := decide (Nat.pow 10 (places + 1) ≤ count)
  let ds := digits (if full then count / 10 else count)
  positional (ds ++ List.replicate (places + 1 - ds.length) '0') (-(places : Int)) ++
    'e' :: integerText (if full then power + 1 else power)

/-- A number in scientific notation with the given number of digits after the point. -/
def scientific (places : Nat) (x : Float) : String :=
  match parts x with
  | .nan => "NaN"
  | .infinite negative => String.ofList (signed negative "inf".toList)
  | .finite negative 0 _ => String.ofList (signed negative (scientificDigits places 0 0))
  | .finite negative significand exponent =>
    let (num, den) := fraction significand exponent
    let power := magnitude num den - 1
    let count :=
      match (places : Int) - power with
      | .ofNat p => nearestEven (num * Nat.pow 10 p) den
      | .negSucc p => nearestEven num (den * Nat.pow 10 (p + 1))
    String.ofList (signed negative (scientificDigits places count power))

end PathSelection.Decimal
