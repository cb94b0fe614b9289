import PathSelection.Policy.Basic
/-!
KL-UCB with multiple plays. Each path has an index: the largest probability that its measurements do
not refute, by their divergence from it. A path that was not tried yet ranks before all others. The
basic mode takes the largest indices; the leader mode takes the best means and one challenger by
index.
-/
namespace PathSelection

/-- The index of a path: none as long as the path was not tried, and then an upper bound. -/
inductive KlIndex (α : Type) where
  | untried
  | bound (q : α)
  deriving Repr, DecidableEq

/-- Indices are ranked by their bounds; untried paths rank highest. -/
def KlIndex.le {α : Type} [Scalar α] : KlIndex α → KlIndex α → Bool
  | _, .untried => true
  | .untried, .bound _ => false
  | .bound p, .bound q => Scalar.totalLe p q

namespace KlIndex

variable {α : Type} [Scalar α]

/-- The distance that bounds keep from the mean and from one. -/
def margin : α := 1e-8

/-- The square of a residual that counts as zero. -/
def residualTolerance : α := 1e-12

/-- The divergence between two trials with success probabilities `p` and `q`. -/
def divergence (p q : α) : α :=
  p * Scalar.log (p / q) + (1 - p) * Scalar.log ((1 - p) / (1 - q))

/-- The derivative of the divergence in `q`. -/
def slope (p q : α) : α := (q - p) / (q * (1 - q))

/-- Up to the given number of Newton steps towards the `q` whose divergence from `p` is the budget.
Each step stays above `p` and below one. -/
def newton (budget p : α) : Nat → α → α
  | 0, q => q
  | steps + 1, q =>
    let residual := budget - divergence p q
    if residual * residual < residualTolerance then q
    else
      newton budget p steps
        (Scalar.min (Scalar.max (q - residual / -slope p q) (p + margin)) (1 - margin))

/-- The bound of a path with `visits` measurements that sum to `gain`, after `total` measurements of
all paths. -/
def upper (gain : α) (visits total : Nat) : α :=
  let budget := Scalar.log ((Nat.max total 1 : Nat) : α) / (visits : α)
  let p := Scalar.max (gain / (visits : α)) margin
  if 1 ≤ p then 1 else newton budget p 20 (p + margin)

/-- The index of a path. -/
def of (gain : α) (visits total : Nat) : KlIndex α :=
  if visits = 0 then .untried else .bound (upper gain visits total)

end KlIndex

/-- How often a path was measured and the sum of its bandwidths. -/
structure Tally (α : Type) where
  visits : Nat
  gain : α
  deriving Repr, DecidableEq

/-- The state of KL-UCB. -/
structure KlUcb (α : Type) where
  tallies : List (Tally α)
  leader : Bool
  deriving Repr, DecidableEq

namespace KlUcb

variable {α : Type} [Scalar α]

/-- KL-UCB over `paths` paths without measurements. -/
def new (paths : Nat) (leader : Bool) : KlUcb α := ⟨List.replicate paths ⟨0, 0⟩, leader⟩

/-- The index of each path. -/
def indices (p : KlUcb α) : List (KlIndex α) :=
  let total := p.tallies.foldl (fun n t => n + t.visits) 0
  p.tallies.map fun t => KlIndex.of t.gain t.visits total

/-- The mean of each path, with one more measurement of bandwidth one. -/
def smoothedMeans (p : KlUcb α) : List α :=
  p.tallies.map fun t => (t.gain + 1) / ((t.visits : α) + 1)

/-- The best path by index that is not among `leaders`, looked for among the `m` largest indices. -/
def challenger (m : Nat) (leaders : List Nat) (p : KlUcb α) : Nat :=
  ((topIndices KlIndex.le p.indices m).find? fun i => !leaders.contains i).getD 0

def decide (m : Nat) (p : KlUcb α) : Except (Error α) (Selection α) × KlUcb α :=
  match checkPlays m p.tallies.length with
  | .error e => (.error e, p)
  | .ok () =>
    if p.leader ∧ m ≠ 0 then
      let leaders := topIndices Scalar.totalLe p.smoothedMeans (m - 1)
      let best := p.challenger m leaders
      (.ok ⟨.klUcb, leaders ++ [best], none, [.leadersAndChallenger best]⟩, p)
    else
      let untried := (p.tallies.filter fun t => t.visits == 0).length
      (.ok ⟨.klUcb, topIndices KlIndex.le p.indices m, none, [.largestIndices untried]⟩, p)

/-- The tallies after one measurement. -/
def learn (tallies : List (Tally α)) (feedback : Nat × Metric α) : List (Tally α) :=
  tallies.modify feedback.1 fun t => ⟨t.visits + 1, t.gain + feedback.2.bandwidth⟩

def update (selected : List Nat) (measurements : List (Metric α)) (p : KlUcb α) :
    Except (Error α) Unit × KlUcb α :=
  match checkFeedback p.tallies.length selected measurements with
  | .error e => (.error e, p)
  | .ok () => (.ok (), { p with tallies := (selected.zip measurements).foldl learn p.tallies })

def info (p : KlUcb α) : String :=
  "KL-UCB: K: " ++ toString p.tallies.length ++ ", mode: " ++
    (if p.leader then "leader" else "basic")

instance : PathPolicy (KlUcb α) α where
  kind _ := .klUcb
  available p := p.tallies.length
  decide := decide
  update := update

end KlUcb

end PathSelection
