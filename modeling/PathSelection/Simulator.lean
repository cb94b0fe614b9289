import PathSelection.Config
import PathSelection.Log.Event
/-!
The rounds of a run. In each round every policy has its turn: it selects its paths, the selection is
delivered to the source, if there is one, and a fresh snapshot is awaited, all paths are measured,
and the policy learns from the measurements of the selected ones. All that happens goes to a record.
-/
namespace PathSelection

/-- How a run ends. -/
inductive Outcome where
  | completed (rounds : Nat)
  /-- The source was exhausted in the given round of a run without an end. -/
  | exhausted (round : Nat)
  deriving Repr, DecidableEq

/-- The paths and policies of a run, with what it needs of its configuration. -/
structure Simulator (π σ ρ α : Type) where
  paths : List (Path ρ α)
  policies : List π
  plays : Nat
  threshold : α
  mode : RoundMode
  forever : Bool
  /-- How many requests for a snapshot are made in a round at most. -/
  refreshAttempts : Nat
  /-- The best value of a round for each policy, where it is known. -/
  oracles : List (Option α)
  source : Option σ

namespace Simulator

variable {π σ ρ α τ : Type} [Scalar α] [RandomSource ρ α] [PathPolicy π α]
  [MeasurementSource σ α] [Recorder τ α]

/-- A run over the given paths. Fails when more paths are to be selected than there are, or when a
policy was made for another number of paths. -/
def new (paths : List (Path ρ α)) (policies : List π) (c : Config α) (source : Option σ) :
    Except (Error α) (Simulator π σ ρ α) :=
  let k := paths.length
  match checkPlays c.plays k with
  | .error e => .error e
  | .ok () =>
    match policies.find? fun p => PathPolicy.available p != k with
    | some p => .error (.lengthMismatch k (PathPolicy.available p))
    | none =>
      let means := paths.map Path.mean
      .ok {
        paths := paths
        policies := policies
        plays := c.plays
        threshold := c.threshold
        mode := c.mode
        forever := c.forever
        refreshAttempts := Nat.max c.refreshAttempts 1
        oracles := policies.map fun p => PathPolicy.oracle p means c.plays
        source := source }

def names (s : Simulator π σ ρ α) : List String :=
  s.policies.map fun p => (PathPolicy.kind p).logName

/-- The best value of a round for a policy, if it is known. -/
def oracle (s : Simulator π σ ρ α) (policy : Nat) : Option α := (s.oracles[policy]?).join

def sample (s : Simulator π σ ρ α) (path : Nat) : Option (Metric α) :=
  s.source.bind fun source => MeasurementSource.sample source path

/-- The run with another state of one policy. -/
def withPolicy (s : Simulator π σ ρ α) (policy : Nat) (p : π) : Simulator π σ ρ α :=
  { s with policies := s.policies.set policy p }

/-- Asks a source for a fresh snapshot, up to the given number of times as long as it has not enough
paths. After that the last snapshot is used again, as it is when the source is exhausted, unless
the run ends then. Answers whether the run goes on. -/
def awaitSnapshot (forever : Bool) (policy round : Nat) :
    Nat → σ → τ → Except (Error α) Bool × σ × τ
  | 0, source, log => (.ok true, source, log)
  | attempts + 1, source, log =>
    match MeasurementSource.refresh source with
    | (.error e, source) => (.error e, source, log)
    | (.ok status, source) =>
      let log := Recorder.record (.refreshed policy round status : Event α) log
      match status with
      | .fresh => (.ok true, source, log)
      | .exhausted => (.ok !forever, source, log)
      | .stale => awaitSnapshot forever policy round attempts source log

/-- Delivers a selection to the source and awaits a fresh snapshot. -/
def steer (policy round : Nat) (selected : List Nat) (s : Simulator π σ ρ α) (log : τ) :
    Except (Error α) Bool × Simulator π σ ρ α × τ :=
  match s.source with
  | none => (.ok true, s, log)
  | some source =>
    match MeasurementSource.prefer selected source with
    | (.error e, source) => (.error e, { s with source := some source }, log)
    | (.ok (), source) =>
      let log := Recorder.record (.preferred policy round selected : Event α) log
      let (answer, source, log) := awaitSnapshot s.forever policy round s.refreshAttempts source log
      (answer, { s with source := some source }, log)

/-- Records the measurements of the paths from number `path` on. -/
def recordMeasurements (policy round path : Nat) : List (Metric α) → τ → τ
  | [], log => log
  | metric :: rest, log =>
    recordMeasurements policy round (path + 1) rest
      (Recorder.record (.measured policy round path metric) log)

/-- Records the selected paths and looks up their measurements. -/
def recordSelection (policy round : Nat) (metrics : List (Metric α)) :
    List Nat → τ → Except (Error α) (List (Metric α)) × τ
  | [], log => (.ok [], log)
  | path :: rest, log =>
    match metrics[path]? with
    | none => (.error (.indexOutOfRange path metrics.length), log)
    | some metric =>
      let log := Recorder.record (.selected policy round path : Event α) log
      match recordSelection policy round metrics rest log with
      | (.error e, log) => (.error e, log)
      | (.ok chosen, log) => (.ok (metric :: chosen), log)

/-- The value of a round for a policy. Without a best value there is no regret. -/
def roundReward (s : Simulator π σ ρ α) (policy : Nat) (measured : List (Metric α)) :
    RoundReward α :=
  let reward := Scalar.sum (measured.map Metric.bandwidth)
  let violation := Scalar.sum (measured.map fun m => m.latency - s.threshold)
  match s.oracle policy with
  | some best => ⟨best, reward, best - reward, violation⟩
  | none => ⟨0, reward, 0, violation⟩

/-- Measures all paths and lets a policy learn from those that it selected. -/
def observe (policy round : Nat) (p : π) (selected : List Nat) (s : Simulator π σ ρ α) (log : τ) :
    Except (Error α) Bool × Simulator π σ ρ α × τ :=
  let (metrics, paths) := Path.measureAll s.sample s.paths
  let s := { s with paths := paths }
  let log := recordMeasurements policy round 0 metrics log
  match recordSelection policy round metrics selected log with
  | (.error e, log) => (.error e, s, log)
  | (.ok chosen, log) =>
    match s.mode.update selected chosen p with
    | (.error e, p) => (.error e, s.withPolicy policy p, log)
    | (.ok (), p) =>
      let log := Recorder.record (.updated policy round s.mode selected chosen) log
      let log := Recorder.record (.rewarded policy round (s.roundReward policy chosen)) log
      (.ok true, s.withPolicy policy p, log)

/-- The turn of one policy in a round. Answers whether the run goes on. -/
def turn (policy round : Nat) (s : Simulator π σ ρ α) (log : τ) :
    Except (Error α) Bool × Simulator π σ ρ α × τ :=
  match s.policies[policy]? with
  | none => (.ok true, s, log)
  | some p =>
    match s.mode.decide s.plays p with
    | (.error e, p) => (.error e, s.withPolicy policy p, log)
    | (.ok selection, p) =>
      let s := s.withPolicy policy p
      let log := Recorder.record (.decided policy round s.mode selection) log
      match steer policy round selection.paths s log with
      | (.ok true, s, log) => observe policy round p selection.paths s log
      | answer => answer

/-- The turns of the given number of policies from number `policy` on. -/
def turns (round : Nat) : Nat → Nat → Simulator π σ ρ α → τ →
    Except (Error α) Bool × Simulator π σ ρ α × τ
  | 0, _, s, log => (.ok true, s, log)
  | count + 1, policy, s, log =>
    match turn policy round s log with
    | (.ok true, s, log) => turns round count (policy + 1) s log
    | answer => answer

/-- The given number of rounds from number `round` on. -/
def rounds : Nat → Nat → Simulator π σ ρ α → τ →
    Except (Error α) Outcome × Simulator π σ ρ α × τ
  | 0, round, s, log => (.ok (.completed round), s, log)
  | count + 1, round, s, log =>
    match turns round s.policies.length 0 s log with
    | (.error e, s, log) => (.error e, s, log)
    | (.ok false, s, log) => (.ok (.exhausted round), s, log)
    | (.ok true, s, log) => rounds count (round + 1) s log

/-- How many rounds are run. Without an end, each turn of a policy uses up at least one snapshot, so
one round more than there are snapshots left is enough to come to the end of the source. -/
def roundCount (s : Simulator π σ ρ α) (requested : Nat) : Nat :=
  if s.forever then
    match s.source with
    | some source => MeasurementSource.remaining source + 1
    | none => 0
  else requested

/-- One repetition of the given number of rounds, or until the source is exhausted. -/
def run (requested : Nat) (s : Simulator π σ ρ α) (log : τ) :
    Except (Error α) Outcome × Simulator π σ ρ α × τ :=
  if s.forever && s.source.isNone then
    (.error (.invalidParameter "forever" (.text "forever mode needs a measurement source")), s, log)
  else rounds (s.roundCount requested) 0 s (Recorder.record (.began : Event α) log)

/-- The repetitions of a run with one record, after one that ended with `last`. An exhausted source
ends them. The state of the policies is not reset. -/
def runRepetitionsFrom (last : Outcome) (requested : Nat) : Nat → Simulator π σ ρ α → τ →
    Except (Error α) Outcome × Simulator π σ ρ α × τ
  | 0, s, log => (.ok last, s, log)
  | count + 1, s, log =>
    match run requested s log with
    | (.ok (.completed n), s, log) =>
      runRepetitionsFrom (.completed n) requested count s log
    | answer => answer

/-- The given number of repetitions of a run with one record. -/
def runRepetitions (repetitions requested : Nat) (s : Simulator π σ ρ α) (log : τ) :
    Except (Error α) Outcome × Simulator π σ ρ α × τ :=
  runRepetitionsFrom (.completed 0) requested repetitions s log

end Simulator

end PathSelection
