import PathSelection.Random.Source

namespace PathSelection

/-- The largest count that is kept. -/
def countLimit : Nat := UInt64.size - 1

/-- The posterior after `uses` trials. It starts uniform. -/
structure BetaArm (α : Type) where
  alpha : α
  beta : α
  uses : Nat
  deriving Repr, DecidableEq

namespace BetaArm

variable {α : Type} [Scalar α]

/-- The uniform distribution, before any trial. -/
def uniform : BetaArm α := ⟨1, 1, 0⟩

/-- The expected probability; one half when the parameters have no positive sum. -/
def mean (arm : BetaArm α) : α :=
  let total := arm.alpha + arm.beta
  if total ≤ 0 then 0.5 else arm.alpha / total

/-- Counts one more trial, unless the count is at its limit. -/
def used (arm : BetaArm α) : Nat := Nat.min (arm.uses + 1) countLimit

/-- The posterior after one more trial. -/
def observe (arm : BetaArm α) (success : Bool) : BetaArm α :=
  if success then ⟨arm.alpha + 1, arm.beta, arm.used⟩ else ⟨arm.alpha, arm.beta + 1, arm.used⟩

/-- The posterior after one more trial, when only the share `memory` of the evidence for its outcome
is kept. No parameter falls below the one it started with. -/
def observeDamped (memory : α) (arm : BetaArm α) (success : Bool) : BetaArm α :=
  if success then ⟨Scalar.max (memory * (arm.alpha + 1)) 1, arm.beta, arm.used⟩
  else ⟨arm.alpha, Scalar.max (memory * (arm.beta + 1)) 1, arm.used⟩

/-- The posterior when only the share `memory` of all evidence is kept. -/
def forget (memory : α) (arm : BetaArm α) : BetaArm α :=
  ⟨Scalar.max (memory * arm.alpha) 1, Scalar.max (memory * arm.beta) 1, arm.uses⟩

/-- A probability drawn from the posterior; one half when the parameters are not positive and
finite. -/
def sample {ρ : Type} [RandomSource ρ α] (arm : BetaArm α) (rng : ρ) : α × ρ :=
  if Scalar.isFinite arm.alpha && Scalar.isFinite arm.beta &&
      !decide (arm.alpha ≤ 0) && !decide (arm.beta ≤ 0) then
    RandomSource.beta arm.alpha arm.beta rng
  else (0.5, rng)

end BetaArm

end PathSelection
