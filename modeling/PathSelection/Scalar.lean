/-!
The numbers that the library computes with. Every rule is written once for all number types with
these operations: it runs over `Float`, and its laws can be stated over the reals.
-/
namespace PathSelection

/-- A number type with the operations that the rules of this library use. The order `totalLe` ranks
all values, also those that `≤` does not compare. -/
class Scalar (α : Type) extends Add α, Sub α, Mul α, Div α, Neg α, LT α, LE α, BEq α,
    NatCast α, OfScientific α where
  decidableLt : DecidableRel (fun a b : α => a < b)
  decidableLe : DecidableRel (fun a b : α => a ≤ b)
  exp : α → α
  log : α → α
  isFinite : α → Bool
  totalLe : α → α → Bool

-- A type that has these operations of its own keeps them; they are taken from the class last.
attribute [instance (low)] Scalar.toAdd Scalar.toSub Scalar.toMul Scalar.toDiv Scalar.toNeg
  Scalar.toLT Scalar.toLE Scalar.toBEq Scalar.toNatCast Scalar.toOfScientific

namespace Scalar

variable {α : Type} [Scalar α]

instance (a b : α) : Decidable (a < b) := decidableLt a b

instance (a b : α) : Decidable (a ≤ b) := decidableLe a b

/-- Numerals stand for natural numbers of the type. -/
instance (priority := low) (n : Nat) : OfNat α n := ⟨(n : α)⟩

/-- The larger of two numbers; a value that is not comparable with itself gives way to the other
one. -/
def max (a b : α) : α := if a < b then b else if a == a then a else b

/-- The smaller of two numbers, with the same rule for incomparable values. -/
def min (a b : α) : α := if b < a then b else if a == a then a else b

def abs (a : α) : α := if a < 0 then -a else a

/-- The nearest number in the unit interval; incomparable values stay as they are. -/
def clampUnit (a : α) : α := if a < 0 then 0 else if 1 < a then 1 else a

/-- The sum from left to right. It starts at negative zero, so that a sum of negative zeros keeps
its sign. -/
def sum (xs : List α) : α := xs.foldl (· + ·) (-0)

end Scalar

/-- Ranks binary64 numbers by their bits: negative numbers first, the larger magnitude lower, then
zero, the positive numbers, infinity and the values that are no number. -/
def floatRank (x : Float) : Int :=
  let bits := x.toBits.toNat
  if bits < 0x8000000000000000 then bits else 0x7fffffffffffffff - (bits : Int)

instance : Scalar Float where
  natCast n := Float.ofNat n
  decidableLt := inferInstance
  decidableLe := inferInstance
  exp := Float.exp
  log := Float.log
  isFinite := Float.isFinite
  totalLe x y := floatRank x ≤ floatRank y

theorem floatTotalLe_trans (x y z : Float) (h₁ : Scalar.totalLe x y = true)
    (h₂ : Scalar.totalLe y z = true) : Scalar.totalLe x z = true := by
  simp only [Scalar.totalLe, decide_eq_true_eq] at *
  omega

theorem floatTotalLe_total (x y : Float) :
    (Scalar.totalLe x y || Scalar.totalLe y x) = true := by
  simp only [Scalar.totalLe, Bool.or_eq_true, decide_eq_true_eq]
  omega

/-- How the numbers of a type are written and read. -/
class NumberText (α : Type) where
  /-- The shortest text that stands for the number. -/
  plain : α → String
  /-- The text with the given number of decimal places. -/
  fixed : Nat → α → String
  /-- The number that a token stands for, if it is one. -/
  read? : List Char → Option α

end PathSelection
