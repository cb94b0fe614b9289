import PathSelection.Path
import PathSelection.Policy.Any
import PathSelection.Seed

namespace PathSelection

/-- All that a run needs besides its paths. -/
structure Config (α : Type) where
  repetitions : Nat
  rounds : Nat
  /-- How many paths are selected in each round. -/
  plays : Nat
  /-- The bound of the constrained policies. -/
  threshold : α
  /-- The pause between a selection and the request for a fresh snapshot. -/
  pollMicroseconds : Nat
  /-- Whether to run until the source is exhausted, without logs. -/
  forever : Bool
  damping : α
  seed : Option UInt64
  mode : RoundMode
  gamma : α
  /-- How often in a round a snapshot with too few paths is followed by another request. -/
  refreshAttempts : Nat
  policies : List PolicyKind
  pathKind : PathKind
  deviation : α
  /-- Whether KL-UCB runs in its leader mode. -/
  leader : Bool
  parameterFile : String
  output : String
  rewardOutput : Option String
  deriving Repr, DecidableEq

namespace Config

variable {α : Type} [Scalar α]

/-- The configuration without any choice. -/
def standard : Config α where
  repetitions := 1
  rounds := 10000
  plays := 2
  threshold := 0.4
  pollMicroseconds := 100
  forever := false
  damping := 0.01
  seed := none
  mode := .vanilla
  gamma := 0.1
  refreshAttempts := 64
  policies := [.constrained .latency]
  pathKind := .fixed
  deviation := 0.1
  leader := false
  parameterFile := "./pathdata/paraFile.txt"
  output := "pathLog.txt"
  rewardOutput := none

/-- Rejects what no run can use. Whether there are enough paths is not known yet. -/
def validate (c : Config α) : Except (Error α) Unit :=
  if c.repetitions = 0 then .error (.invalidParameter "repetitions" (.text "0"))
  else if !Scalar.isFinite c.threshold then
    .error (.invalidParameter "threshold" (.number c.threshold))
  else if ¬(0 ≤ c.damping ∧ c.damping < 1) then
    .error (.invalidParameter "damping" (.number c.damping))
  else if ¬(0 < c.gamma ∧ c.gamma < 1) then
    .error (.invalidParameter "gamma" (.number c.gamma))
  else if ¬(Scalar.isFinite c.deviation = true ∧ 0 ≤ c.deviation) then
    .error (.invalidParameter "stddev" (.number c.deviation))
  else if c.policies.isEmpty then .error (.invalidParameter "policies" (.text "[]"))
  else .ok ()

end Config

/-- A policy of a kind over `paths` paths with the parameters of a configuration. -/
def buildPolicy {ρ α : Type} [Scalar α] (engine : Lp.Engine α) (c : Config α) (kind : PolicyKind)
    (paths : Nat) (rng : ρ) : Except (Error α) (Policy ρ α) :=
  match kind with
  | .constrained resource =>
    match Constrained.new engine resource paths c.threshold c.damping rng with
    | .error e => .error e
    | .ok p => .ok (.constrained p)
  | .thompson => .ok (.thompson (Thompson.new paths rng))
  | .klUcb => .ok (.klUcb (KlUcb.new paths c.leader))
  | .exp3 =>
    match Exp3.new paths c.gamma rng with
    | .error e => .error e
    | .ok p => .ok (.exp3 p)
  | .uniform => .ok (.uniform ⟨paths, rng⟩)

/-- The policies of a run; policy `i` gets the generator of the seed for policy `i`. -/
def buildPolicies {ρ α : Type} [Scalar α] (engine : Lp.Engine α) (generator : UInt64 → ρ)
    (seeds : SeedSequence) (c : Config α) (kinds : List PolicyKind) (paths : Nat) :
    Except (Error α) (List (Policy ρ α)) :=
  kinds.zipIdx.mapM fun (kind, i) =>
    buildPolicy engine c kind paths (generator (seeds.seedFor "policy" i))

end PathSelection
