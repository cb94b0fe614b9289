import PathSelection.Policy.Arm
import PathSelection.Policy.Basic

namespace PathSelection

/-- The state of Thompson sampling. -/
structure Thompson (ρ α : Type) where
  arms : List (BetaArm α)
  rng : ρ
  deriving Repr

namespace Thompson

variable {ρ α : Type} [Scalar α]

/-- A parameter of the prior; one that is not positive and finite becomes one. -/
def priorParameter (x : α) : α := if Scalar.isFinite x && decide (0 < x) then x else 1

/-- Thompson sampling over `paths` paths with the same prior for each. -/
def withPrior (paths : Nat) (alpha beta : α) (rng : ρ) : Thompson ρ α :=
  ⟨List.replicate paths ⟨priorParameter alpha, priorParameter beta, 0⟩, rng⟩

/-- Thompson sampling with uniform priors. -/
def new (paths : Nat) (rng : ρ) : Thompson ρ α := withPrior paths 1 1 rng

/-- One draw from each posterior, in order. -/
def sampleAll [RandomSource ρ α] : List (BetaArm α) → ρ → List α × ρ
  | [], rng => ([], rng)
  | arm :: arms, rng =>
    let (x, rng) := arm.sample rng
    let (xs, rng) := sampleAll arms rng
    (x :: xs, rng)

/-- Selects the paths of the `m` largest draws. -/
def decide [RandomSource ρ α] (m : Nat) (p : Thompson ρ α) :
    Except (Error α) (Selection α) × Thompson ρ α :=
  match checkPlays m p.arms.length with
  | .error e => (.error e, p)
  | .ok () =>
    let (draws, rng) := sampleAll p.arms p.rng
    (.ok ⟨.thompson, topIndices Scalar.totalLe draws m, none, [.sampledPosterior]⟩,
      { p with rng := rng })

/-- The posteriors after one measurement: a bandwidth above one half is a success. -/
def learn (arms : List (BetaArm α)) (feedback : Nat × Metric α) : List (BetaArm α) :=
  arms.modify feedback.1 fun arm => arm.observe (0.5 < feedback.2.bandwidth)

def update (selected : List Nat) (measurements : List (Metric α)) (p : Thompson ρ α) :
    Except (Error α) Unit × Thompson ρ α :=
  match checkFeedback p.arms.length selected measurements with
  | .error e => (.error e, p)
  | .ok () => (.ok (), { p with arms := (selected.zip measurements).foldl learn p.arms })

def info (p : Thompson ρ α) : String := "MP-TS: K: " ++ toString p.arms.length

instance [RandomSource ρ α] : PathPolicy (Thompson ρ α) α where
  kind _ := .thompson
  available p := p.arms.length
  decide := decide
  update := update

end Thompson

end PathSelection
