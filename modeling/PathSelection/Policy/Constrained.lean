import PathSelection.Policy.Arm
import PathSelection.Policy.Basic
import PathSelection.Policy.Program
import PathSelection.Rounding
/-!
Constrained Thompson sampling with multiple plays. Each path has a posterior of its bandwidth and
one of its cost. A round draws from both, solves the linear program of the bounded resource, and
rounds the shares of the optimum to a set of paths. When the program has no optimum, or its shares
cannot be rounded, the paths of least cost are taken, so that a round never comes back short.
-/
namespace PathSelection

/-- What is believed about one path: the posteriors of its bandwidth and its cost, and the running
averages of both over `averaged` measurements. -/
structure Belief (α : Type) where
  bandwidth : BetaArm α
  cost : BetaArm α
  averageBandwidth : α
  averageCost : α
  averaged : Nat
  deriving Repr, DecidableEq

/-- The state of constrained Thompson sampling. -/
structure Constrained (ρ α : Type) where
  engine : Lp.Engine α
  resource : Resource
  threshold : α
  damping : α
  beliefs : List (Belief α)
  rng : ρ

/-- The belief before any measurement. -/
def Belief.initial {α : Type} [Scalar α] : Belief α :=
  ⟨BetaArm.uniform, BetaArm.uniform, 0.5, 0.5, 0⟩

namespace Constrained

variable {ρ α : Type} [Scalar α]

/-- The policy over `paths` paths. The threshold is finite, and the rate of forgetting is at least
zero and below one. -/
def new (engine : Lp.Engine α) (resource : Resource) (paths : Nat) (threshold damping : α)
    (rng : ρ) : Except (Error α) (Constrained ρ α) :=
  if !Scalar.isFinite threshold then
    .error (.invalidParameter "threshold" (.number threshold))
  else if 0 ≤ damping ∧ damping < 1 then
    .ok ⟨engine, resource, threshold, damping, List.replicate paths Belief.initial, rng⟩
  else .error (.invalidParameter "damping" (.number damping))

/-- The shares of the paths in a solution: the bandwidth program has one more variable in front. -/
def shares (resource : Resource) (point : List α) : List α :=
  match resource with
  | .bandwidth => point.drop 1
  | .latency | .loss => point

/-- The optimal shares of the paths, with the value of the objective. -/
def solve (p : Constrained ρ α) (costs bandwidths : List α) (m : Nat) :
    Except (Error α) (Except (Lp.Failure α) (Lp.Solution α)) :=
  match Lp.resourceProgram p.resource costs bandwidths m p.threshold with
  | .error e => .error e
  | .ok program =>
    match program.solve p.engine with
    | .error failure => .ok (.error failure)
    | .ok solution => .ok (.ok ⟨shares p.resource solution.point, solution.objective⟩)

/-- The selection of the paths of least cost. -/
def fallback (p : Constrained ρ α) (costs : List α) (m : Nat) (notes : List (Note α)) :
    Selection α :=
  ⟨.constrained p.resource, bottomIndices Scalar.totalLe costs m, none, notes⟩

/-- Selects `m` paths by estimates of their costs and bandwidths; `origin` says where the estimates
are from. -/
def decideFrom [RandomSource ρ α] (costs bandwidths : List α) (m : Nat) (origin : Note α)
    (p : Constrained ρ α) : Except (Error α) (Selection α) × Constrained ρ α :=
  match p.solve costs bandwidths m with
  | .error e => (.error e, p)
  | .ok (.error failure) => (.ok (p.fallback costs m [origin, .programFallback failure]), p)
  | .ok (.ok solution) =>
    match dependentRounding m solution.point p.rng with
    | (.ok selected, rng) =>
      (.ok ⟨.constrained p.resource, selected, some solution.point,
        [origin, .feasible solution.objective]⟩, { p with rng := rng })
    | (.error e, rng) =>
      (.ok (p.fallback costs m [origin, .roundingFallback e]), { p with rng := rng })

/-- Draws the bandwidth and the cost of each path, in this order. -/
def sampleAll [RandomSource ρ α] : List (Belief α) → ρ → List (α × α) × ρ
  | [], rng => ([], rng)
  | belief :: beliefs, rng =>
    let (bandwidth, rng) := belief.bandwidth.sample rng
    let (cost, rng) := belief.cost.sample rng
    let (rest, rng) := sampleAll beliefs rng
    ((bandwidth, cost) :: rest, rng)

/-- Selects `m` paths by draws from the posteriors. -/
def decide [RandomSource ρ α] (m : Nat) (p : Constrained ρ α) :
    Except (Error α) (Selection α) × Constrained ρ α :=
  match checkPlays m p.beliefs.length with
  | .error e => (.error e, p)
  | .ok () =>
    let (draws, rng) := sampleAll p.beliefs p.rng
    decideFrom (draws.map (·.2)) (draws.map (·.1)) m .sampledPosterior { p with rng := rng }

/-- Selects `m` paths by the running averages. -/
def decideAveraged [RandomSource ρ α] (m : Nat) (p : Constrained ρ α) :
    Except (Error α) (Selection α) × Constrained ρ α :=
  match checkPlays m p.beliefs.length with
  | .error e => (.error e, p)
  | .ok () =>
    decideFrom (p.beliefs.map Belief.averageCost) (p.beliefs.map Belief.averageBandwidth) m
      .averagedEstimates p

/-- The outcomes that a measurement counts as: one trial with its bandwidth as probability, and one
with its cost. -/
def outcomes [RandomSource ρ α] (resource : Resource) (metric : Metric α) (rng : ρ) :
    (Bool × Bool) × ρ :=
  let (bandwidth, rng) := bernoulli metric.bandwidth rng
  let (cost, rng) := bernoulli (resource.cost metric) rng
  ((bandwidth, cost), rng)

/-- The beliefs after some measurements, each of which changes the belief in its path. -/
def learn [RandomSource ρ α] (resource : Resource)
    (observe : BetaArm α → Bool → BetaArm α) :
    List (Nat × Metric α) → List (Belief α) → ρ → List (Belief α) × ρ
  | [], beliefs, rng => (beliefs, rng)
  | (path, metric) :: rest, beliefs, rng =>
    let ((bandwidth, cost), rng) := outcomes resource metric rng
    let beliefs := beliefs.modify path fun b =>
      { b with bandwidth := observe b.bandwidth bandwidth, cost := observe b.cost cost }
    learn resource observe rest beliefs rng

def update [RandomSource ρ α] (selected : List Nat) (measurements : List (Metric α))
    (p : Constrained ρ α) : Except (Error α) Unit × Constrained ρ α :=
  match checkFeedback p.beliefs.length selected measurements with
  | .error e => (.error e, p)
  | .ok () =>
    let (beliefs, rng) :=
      learn p.resource BetaArm.observe (selected.zip measurements) p.beliefs p.rng
    (.ok (), { p with beliefs := beliefs, rng := rng })

/-- The beliefs when only the share `memory` is kept of those whose paths were not selected. -/
def forgetOthers (memory : α) (selected : List Nat) (beliefs : List (Belief α)) :
    List (Belief α) :=
  beliefs.mapIdx fun path b =>
    if selected.contains path then b
    else { b with bandwidth := b.bandwidth.forget memory, cost := b.cost.forget memory }

/-- Learns from the measurements of the selected paths with a memory, and forgets about the other
paths. -/
def updateDamped [RandomSource ρ α] (selected : List Nat) (measurements : List (Metric α))
    (p : Constrained ρ α) : Except (Error α) Unit × Constrained ρ α :=
  match checkFeedback p.beliefs.length selected measurements with
  | .error e => (.error e, p)
  | .ok () =>
    let memory := 1 - p.damping
    let (beliefs, rng) :=
      learn p.resource (BetaArm.observeDamped memory) (selected.zip measurements) p.beliefs p.rng
    (.ok (), { p with beliefs := forgetOthers memory selected beliefs, rng := rng })

/-- The belief after one more measurement, in its running averages only. -/
def Belief.average (resource : Resource) (metric : Metric α) (b : Belief α) : Belief α :=
  let n : α := (b.averaged : α)
  { b with
    averageBandwidth := (n * b.averageBandwidth + metric.bandwidth) / (n + 1)
    averageCost := (n * b.averageCost + resource.cost metric) / (n + 1)
    averaged := b.averaged + 1 }

/-- Learns the running averages of the selected paths. -/
def updateAveraged (selected : List Nat) (measurements : List (Metric α))
    (p : Constrained ρ α) : Except (Error α) Unit × Constrained ρ α :=
  match checkFeedback p.beliefs.length selected measurements with
  | .error e => (.error e, p)
  | .ok () =>
    let beliefs := (selected.zip measurements).foldl (fun beliefs (path, metric) =>
      beliefs.modify path (Belief.average p.resource metric)) p.beliefs
    (.ok (), { p with beliefs := beliefs })

/-- The best value of a round: the bandwidth of the optimal shares, or the least bound of all
latency shares if bandwidth is bounded. -/
def oracle (p : Constrained ρ α) (means : List (Metric α)) (m : Nat) : Option α :=
  if means.length < m then none
  else
    let bandwidths := means.map Metric.bandwidth
    match p.solve (means.map p.resource.cost) bandwidths m with
    | .error _ | .ok (.error _) => none
    | .ok (.ok solution) =>
      match p.resource with
      | .bandwidth => some solution.objective
      | .latency | .loss => (dot solution.point bandwidths).toOption

def info [NumberText α] (p : Constrained ρ α) : String :=
  (PolicyKind.constrained p.resource).logName ++ ": K: " ++ toString p.beliefs.length ++
    ", th: " ++ NumberText.fixed 6 p.threshold ++ ", damping: " ++ NumberText.fixed 6 p.damping

instance [RandomSource ρ α] : PathPolicy (Constrained ρ α) α where
  kind p := .constrained p.resource
  available p := p.beliefs.length
  decide := decide
  update := update
  decideAveraged := decideAveraged
  updateDamped := updateDamped
  updateAveraged := updateAveraged
  oracle := oracle

end Constrained

end PathSelection
