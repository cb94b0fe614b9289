import PathSelection.Log.Event

namespace PathSelection

/-- Counts and sums for each policy, round and path; cell `(p, t, i)` is number
`(p * rounds + t) * paths + i`. -/
structure RoundLog (α : Type) where
  policies : Nat
  rounds : Nat
  paths : Nat
  repetitions : Nat
  enabled : Bool
  selected : Array Nat
  metrics : Array (Metric α)
  deriving Repr, DecidableEq

namespace RoundLog

variable {α : Type} [Scalar α]

def new (policies rounds paths : Nat) : RoundLog α :=
  let cells := policies * rounds * paths
  ⟨policies, rounds, paths, 0, true, Array.replicate cells 0, Array.replicate cells Metric.zero⟩

/-- A log for runs without an end, which takes in nothing. -/
def disabled (policies paths : Nat) : RoundLog α := ⟨policies, 0, paths, 0, false, #[], #[]⟩

/-- The number of the cell of a policy, a round and a path, if the log has one. -/
def cell? (log : RoundLog α) (policy round path : Nat) : Option Nat :=
  if log.enabled && policy < log.policies && round < log.rounds && path < log.paths then
    some ((policy * log.rounds + round) * log.paths + path)
  else none

/-- Counts one more repetition. -/
def begin (log : RoundLog α) : RoundLog α :=
  if log.enabled then { log with repetitions := log.repetitions + 1 } else log

/-- Counts a selected path. -/
def recordSelected (policy round path : Nat) (log : RoundLog α) : RoundLog α :=
  match log.cell? policy round path with
  | some c => { log with selected := log.selected.modify c (· + 1) }
  | none => log

/-- Adds a measurement. -/
def recordMeasurement (policy round path : Nat) (metric : Metric α) (log : RoundLog α) :
    RoundLog α :=
  match log.cell? policy round path with
  | some c => { log with metrics := log.metrics.modify c (· + metric) }
  | none => log

instance : Recorder (RoundLog α) α where
  record e log :=
    match e with
    | .began => log.begin
    | .selected policy round path => log.recordSelected policy round path
    | .measured policy round path metric => log.recordMeasurement policy round path metric
    | _ => log

/-- In which share of the repetitions a policy selected a path in a round. -/
def selectionFrequency (log : RoundLog α) (policy round path : Nat) : α :=
  match log.cell? policy round path with
  | some c =>
    if log.repetitions = 0 then 0
    else ((log.selected.getD c 0 : Nat) : α) / (log.repetitions : α)
  | none => 0

/-- The mean measurement of a path in a round. -/
def meanMetric (log : RoundLog α) (policy round path : Nat) : Metric α :=
  match log.cell? policy round path with
  | some c => (log.metrics.getD c Metric.zero).average log.repetitions
  | none => Metric.zero

/-- Adds the counts and sums of another log of the same shape. -/
def merge (log other : RoundLog α) : Except (Error α) (RoundLog α) :=
  if log.policies = other.policies ∧ log.rounds = other.rounds ∧ log.paths = other.paths then
    .ok { log with
      repetitions := log.repetitions + other.repetitions
      selected := log.selected.mapIdx fun c n => n + other.selected.getD c 0
      metrics := log.metrics.mapIdx fun c m =>
        match other.metrics[c]? with
        | some m' => m + m'
        | none => m }
  else .error (.lengthMismatch log.selected.size other.selected.size)

/-- The lines above the rows: what the log counts, the policies, and the names of the columns. -/
def header (log : RoundLog α) (names : List String) : List String :=
  let columns := ["selection", "rtt", "bw", "lossrate"].flatMap fun label =>
    names.map fun name => label ++ "(" ++ name ++ ")"
  ["# result in: " ++ toString log.repetitions ++ " simulations."] ++
    (names.zipIdx.map fun (name, p) => "# policy " ++ toString p ++ " " ++ name) ++
    ["#results:", String.intercalate " " ("#T" :: columns)]

/-- The cells of all paths of all policies, policy after policy. -/
def grid (policies paths : Nat) (value : Nat → Nat → α) : List α :=
  (List.range policies).flatMap fun p => (List.range paths).map (value p)

/-- The numbers of a row: selection frequencies, mean latencies, bandwidths and losses. -/
def rowValues (log : RoundLog α) (policies round : Nat) : List α :=
  let signal (f : Metric α → α) : List α :=
    grid policies log.paths fun p i => f (log.meanMetric p round i)
  grid policies log.paths (fun p i => log.selectionFrequency p round i) ++
    signal Metric.latency ++ signal Metric.bandwidth ++ signal Metric.loss

/-- The fields of a row: the number of the round, counted from one, and the numbers with six
places. -/
def fields [NumberText α] (log : RoundLog α) (policies round : Nat) : List String :=
  toString (round + 1) :: (log.rowValues policies round).map (NumberText.fixed 6)

/-- The lines of the log, for the policies that have a name. -/
def lines [NumberText α] (log : RoundLog α) (names : List String) : List String :=
  if log.enabled then
    log.header names ++ (List.range log.rounds).map fun round =>
      String.intercalate " " (log.fields (Nat.min names.length log.policies) round)
  else []

/-- The text of the log. -/
def render [NumberText α] (log : RoundLog α) (names : List String) : String :=
  String.join ((log.lines names).map (· ++ "\n"))

end RoundLog

end PathSelection
