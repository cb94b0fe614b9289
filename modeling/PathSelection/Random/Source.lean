import PathSelection.Random.Normal
import PathSelection.Random.Order
import PathSelection.Scalar

namespace PathSelection

/-- A state of randomness from which single draws and visiting orders are taken. -/
class DrawSource (ρ : Type) (α : outParam Type) where
  /-- A number in `[0, 1)`. -/
  uniform : ρ → α × ρ
  /-- The numbers below `n` in random order. -/
  order : Nat → ρ → List Nat × ρ

/-- A state of randomness from which also subsets and numbers of other distributions are drawn. -/
class RandomSource (ρ : Type) (α : outParam Type) extends DrawSource ρ α where
  /-- A random subset of `m` of the numbers below `n`. -/
  subset : Nat → Nat → ρ → List Nat × ρ
  /-- A number with the Beta distribution of two positive parameters. -/
  beta : α → α → ρ → α × ρ
  /-- A number with the normal distribution of a mean and a standard deviation. -/
  normal : α → α → ρ → α × ρ

instance {ω : Type} [WordSource ω] : RandomSource ω Float where
  uniform := Draw.unit
  order := Draw.order
  subset := Draw.subset
  beta := Draw.beta
  normal := Draw.normal

variable {ρ α : Type} [Scalar α] [DrawSource ρ α]

/-- One trial that succeeds with the given probability; it always succeeds at one and above and
never at zero and below. -/
def bernoulli (probability : α) (rng : ρ) : Bool × ρ :=
  let (u, rng) := DrawSource.uniform rng
  (decide (u < probability), rng)

end PathSelection
