import PathSelection.Policy.Basic
import PathSelection.Random.Source

namespace PathSelection

/-- The state of the uniform policy. -/
structure UniformChoice (ρ : Type) where
  paths : Nat
  rng : ρ
  deriving Repr

namespace UniformChoice

variable {ρ α : Type} [Scalar α] [RandomSource ρ α]

/-- Selects `m` paths, in ascending order. -/
def decide (m : Nat) (p : UniformChoice ρ) :
    Except (Error α) (Selection α) × UniformChoice ρ :=
  match checkPlays m p.paths with
  | .error e => (.error e, p)
  | .ok () =>
    let (drawn, rng) := RandomSource.subset (α := α) p.paths m p.rng
    let probability : α := if p.paths = 0 then 0 else (m : α) / (p.paths : α)
    (.ok ⟨.uniform, drawn.mergeSort, some (List.replicate p.paths probability), [.uniform]⟩,
      { p with rng := rng })

/-- Checks the feedback. -/
def update (selected : List Nat) (measurements : List (Metric α)) (p : UniformChoice ρ) :
    Except (Error α) Unit × UniformChoice ρ :=
  (checkFeedback p.paths selected measurements, p)

def info (p : UniformChoice ρ) : String := "RANDOM: K: " ++ toString p.paths

instance : PathPolicy (UniformChoice ρ) α where
  kind _ := .uniform
  available p := p.paths
  decide := decide
  update := update

end UniformChoice

end PathSelection
