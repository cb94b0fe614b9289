namespace PathSelection.Decimal

/-- The decimal digits of a natural number, without leading zeros. -/
def digits (n : Nat) : List Char := Nat.toDigits 10 n

def digitCount (n : Nat) : Nat := (digits n).length

/-- The digits of `n` with zeros in front up to the given width. -/
def paddedDigits (width n : Nat) : List Char :=
  let ds := digits n
  List.replicate (width - ds.length) '0' ++ ds

/-- The value of a list of decimal digits. -/
def digitsValue (cs : List Char) : Nat :=
  cs.foldl (fun n c => 10 * n + (c.toNat - '0'.toNat)) 0

/-- The list without the zeros at its end. -/
def dropTrailingZeros (cs : List Char) : List Char :=
  (cs.reverse.dropWhile (· = '0')).reverse

/-- The least `k` with `num / den < 10 ^ k`, for a fraction that is no power of ten below one. -/
def magnitude (num den : Nat) : Int :=
  if den ≤ num then digitCount (num / den) else 1 - (digitCount (den / num) : Int)

/-- The text of `d * 10 ^ power` in positional notation, where `ds` are the digits of `d`. -/
def positional (ds : List Char) (power : Int) : List Char :=
  match power with
  | .ofNat zeros => ds ++ List.replicate zeros '0'
  | .negSucc p =>
    let places := p + 1
    if places < ds.length then
      ds.take (ds.length - places) ++ '.' :: ds.drop (ds.length - places)
    else '0' :: '.' :: (List.replicate (places - ds.length) '0' ++ ds)

def integerText (z : Int) : List Char :=
  match z with
  | .ofNat n => digits n
  | .negSucc n => '-' :: digits (n + 1)

end PathSelection.Decimal
