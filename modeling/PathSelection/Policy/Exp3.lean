import PathSelection.Policy.Basic
import PathSelection.Rounding
/-!
EXP3.M: multiple plays against an adversary. Each path has a weight; its probability is its share of
the weights, mixed with a uniform share. The heaviest weights count only up to a cap, so that no
probability exceeds one, and the probabilities are rounded to a set of paths. A selected path whose
weight was not capped grows by its bandwidth, weighted by the inverse of its probability.
-/
namespace PathSelection

/-- The state of EXP3.M: the weights, and the probabilities and the cap of the last decision. There
is no cap when no weight was too heavy. -/
structure Exp3 (ρ α : Type) where
  gamma : α
  weights : List α
  probabilities : List α
  cap : Option α
  rng : ρ
  deriving Repr

namespace Exp3

variable {ρ α : Type} [Scalar α]

/-- Weights are divided by the largest one when that exceeds this value. -/
def weightLimit : α := 1e100

/-- No weight falls below this value. -/
def weightFloor : α := 1e-100

/-- EXP3.M over `paths` paths with equal weights. The rate of exploration lies strictly between zero
and one. -/
def new (paths : Nat) (gamma : α) (rng : ρ) : Except (Error α) (Exp3 ρ α) :=
  if 0 < gamma ∧ gamma < 1 then
    .ok ⟨gamma, List.replicate paths 1, List.replicate paths 1, none, rng⟩
  else .error (.invalidParameter "gamma" (.number gamma))

/-- The share of all weights that a path may have when `m` out of `paths` are selected. -/
def shareLimit (gamma : α) (paths m : Nat) : α :=
  (1 / (m : α) - gamma / (paths : α)) / (1 - gamma)

/-- The sum of weights in descending order, from the smallest one up. -/
def tailSum (weights : List α) : α := weights.foldr (fun w sum => sum + w) 0

/-- The cap for weights in descending order of which `capped` heavier ones are capped already: the
value that equals the limit of the share of what all weights sum to when these count as the cap.
There are `plays` more weights that may be capped. -/
def findCap (limit : α) : Nat → Nat → List α → Option α
  | 0, _, _ => none
  | _ + 1, _, [] => none
  | plays + 1, capped, weight :: lighter =>
    let rest := 1 - (capped : α) * limit
    if rest ≤ 0 then none
    else
      let cap := limit * tailSum (weight :: lighter) / rest
      if weight < cap then some cap else findCap limit plays (capped + 1) lighter

def descending (weights : List α) : List α := weights.mergeSort fun a b => Scalar.totalLe b a

/-- The cap for `m` plays, none when all weights are below their limit. -/
def capFor (gamma : α) (m : Nat) (weights : List α) : Except (Error α) (Option α) :=
  let limit := shareLimit gamma weights.length m
  match descending weights with
  | [] => .ok none
  | heaviest :: lighter =>
    if limit * Scalar.sum weights ≤ heaviest then
      match findCap limit m 0 (heaviest :: lighter) with
      | some cap => .ok (some cap)
      | none => .error .capNotFound
    else .ok none

/-- The weights as they count under a cap. -/
def cappedWeights (cap : Option α) (weights : List α) : List α :=
  match cap with
  | none => weights
  | some cap => weights.map fun w => Scalar.min w cap

def mixed (gamma : α) (m : Nat) (weights : List α) : List α :=
  let total := Scalar.sum weights
  let paths : α := (weights.length : α)
  weights.map fun w =>
    Scalar.min ((m : α) * ((1 - gamma) * w / total + gamma / paths)) 1

/-- The policy with the probabilities for `m` plays. -/
def prepare (m : Nat) (p : Exp3 ρ α) : Except (Error α) (Exp3 ρ α) :=
  match capFor p.gamma m p.weights with
  | .error e => .error e
  | .ok cap =>
    .ok { p with cap := cap, probabilities := mixed p.gamma m (cappedWeights cap p.weights) }

def capNotes (cap : Option α) : List (Note α) :=
  match cap with
  | none => []
  | some cap => [.cappedWeights cap]

def decide [DrawSource ρ α] (m : Nat) (p : Exp3 ρ α) :
    Except (Error α) (Selection α) × Exp3 ρ α :=
  let paths := p.weights.length
  match checkPlays m paths with
  | .error e => (.error e, p)
  | .ok () =>
    if m = paths then
      let ones : List α := List.replicate paths 1
      (.ok ⟨.exp3, List.range paths, some ones, [.allPaths]⟩,
        { p with cap := none, probabilities := ones })
    else if m = 0 then (.ok ⟨.exp3, [], none, []⟩, p)
    else
      match p.prepare m with
      | .error e => (.error e, p)
      | .ok p =>
        match dependentRounding m p.probabilities p.rng with
        | (.error e, rng) => (.error e, { p with rng := rng })
        | (.ok selected, rng) =>
          (.ok ⟨.exp3, selected, some p.probabilities, capNotes p.cap⟩, { p with rng := rng })

/-- The growth of a selected path on a logarithmic scale, if it learns at all: its weight was below
the cap, its probability is positive and its bandwidth finite. -/
def growth (p : Exp3 ρ α) (plays : Nat) (path : Nat) (bandwidth : α) : Option α :=
  let weight := p.weights.getD path 0
  let probability := p.probabilities.getD path 0
  let belowCap :=
    match p.cap with
    | none => true
    | some cap => Decidable.decide (weight < cap)
  if belowCap && Decidable.decide (0 < probability) && Scalar.isFinite bandwidth then
    some ((plays : α) * p.gamma * (bandwidth / probability) / (p.weights.length : α))
  else none

/-- The growth of all paths, zero for those that do not learn. Of two measurements of one path the
later one counts. -/
def growths (p : Exp3 ρ α) (selected : List Nat) (measurements : List (Metric α)) : List α :=
  (selected.zip measurements).foldl (fun exponents (path, metric) =>
    match p.growth selected.length path metric.bandwidth with
    | some e => exponents.set path e
    | none => exponents) (List.replicate p.weights.length 0)

def largest? : List α → Option α
  | [] => none
  | x :: xs => some (xs.foldl Scalar.max x)

/-- The logarithm by which the weights are divided: that of the largest one if it exceeds the
limit. -/
def rescaling? (logs : List α) : Option α :=
  match largest? logs with
  | none => none
  | some top => if Scalar.log weightLimit < top then some top else none

/-- The weights after they have grown. A weight that does not grow is left as it is, unless all
weights are rescaled. -/
def grow (exponents weights : List α) : List α :=
  -- On the logarithmic scale no growth overflows, however small the probability was.
  let logs := List.zipWith (fun w e => Scalar.log w + e) weights exponents
  let write (shift l : α) : α := Scalar.max (Scalar.exp (l - shift)) weightFloor
  match rescaling? logs with
  | some top => logs.map (write top)
  | none =>
    List.zipWith (fun (w, l) e => if e == 0 then w else write 0 l) (weights.zip logs) exponents

def update (selected : List Nat) (measurements : List (Metric α)) (p : Exp3 ρ α) :
    Except (Error α) Unit × Exp3 ρ α :=
  match checkFeedback p.weights.length selected measurements with
  | .error e => (.error e, p)
  | .ok () =>
    (.ok (), { p with weights := grow (p.growths selected measurements) p.weights })

def info [NumberText α] (p : Exp3 ρ α) : String :=
  "Exp3M with gamma=" ++ NumberText.fixed 6 p.gamma

instance [DrawSource ρ α] : PathPolicy (Exp3 ρ α) α where
  kind _ := .exp3
  available p := p.weights.length
  decide := decide
  update := update

end Exp3

end PathSelection
