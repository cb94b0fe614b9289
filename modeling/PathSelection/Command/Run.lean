import PathSelection.Command.Arguments
import PathSelection.Load
import PathSelection.Log.Reward
import PathSelection.Log.Round
import PathSelection.Simulator

namespace PathSelection.Command

/-- How long a source may take to report enough paths. -/
def sourceTimeoutMilliseconds : Nat := 5000

/-- The paths of a run, and the source that feeds them, if any. -/
structure Supply (ρ α : Type) where
  paths : List (Path ρ α)
  source : Option (Replay α)

/-- The logs of a run; a run that was ended by its source has none. -/
structure Logs (α : Type) where
  names : List String
  rounds : RoundLog α
  rewards : RewardLog α

variable {m : Type → Type} [Monad m] [FileStore m] {ρ α : Type} [Scalar α] [NumberText α]

/-- The paths that a request asks for. Live paths need a script to replay. -/
def supply (generator : UInt64 → ρ) (seeds : SeedSequence) (request : Request α) :
    m (Except (Error α) (Supply ρ α)) := do
  let c := request.config
  match c.pathKind with
  | .source =>
    match request.replay with
    | none => pure (.error (.invalidParameter "replay" (.text "source paths need --replay")))
    | some path =>
      match ← loadReplay path with
      | .error e => pure (.error e)
      | .ok source =>
        match waitForPaths (Nat.max c.plays 1) sourceTimeoutMilliseconds source with
        | .error e => pure (.error e)
        | .ok k => pure (.ok ⟨sourcePaths k, some source⟩)
  | kind =>
    match ← loadParameters c.parameterFile with
    | .error e => pure (.error e)
    | .ok means =>
      match buildPaths generator seeds kind c.deviation means with
      | .error e => pure (.error e)
      | .ok paths => pure (.ok ⟨paths, none⟩)

def simulate [RandomSource ρ α] (engine : Lp.Engine α) (generator : UInt64 → ρ)
    (seeds : SeedSequence) (c : Config α) (given : Supply ρ α) :
    Except (Error α) (Option (Logs α)) :=
  let k := given.paths.length
  match buildPolicies engine generator seeds c c.policies k with
  | .error e => .error e
  | .ok policies =>
    match Simulator.new given.paths policies c given.source with
    | .error e => .error e
    | .ok simulator =>
      let names := simulator.names
      let rounds : RoundLog α :=
        if c.forever then RoundLog.disabled names.length k
        else RoundLog.new names.length c.rounds k
      let rewards : RewardLog α := RewardLog.new names.length (if c.forever then 0 else c.rounds)
      match simulator.runRepetitions c.repetitions c.rounds (rounds, rewards) with
      | (.error e, _, _) => .error e
      | (.ok (.exhausted _), _, _) => .ok none
      | (.ok (.completed _), _, (rounds, rewards)) => .ok (some ⟨names, rounds, rewards⟩)

/-- A run from the check of its configuration to the end of its last repetition. The entropy is the
master seed of a request without one. -/
def attempt [RandomSource ρ α] (engine : Lp.Engine α) (generator : UInt64 → ρ) (entropy : UInt64)
    (request : Request α) : m (Except (Error α) (Option (Logs α))) := do
  let c := request.config
  match c.validate with
  | .error e => pure (.error e)
  | .ok () =>
    let seeds : SeedSequence := ⟨c.seed.getD entropy⟩
    match ← supply generator seeds request with
    | .error e => pure (.error e)
    | .ok given => pure (simulate engine generator seeds c given)

/-- Writes a log, which must be possible. -/
def writeLog (path text : String) : m (Except (Error α) Unit) := do
  match ← FileStore.writeText path text with
  | .error fault => pure (.error (.unwritableLog path fault))
  | .ok () => pure (.ok ())

/-- Writes the round log. Nothing is made of a disabled one. -/
def writeRoundLog (path : String) (names : List String) (log : RoundLog α) :
    m (Except (Error α) Unit) :=
  if log.enabled then writeLog path (log.render names) else pure (.ok ())

/-- Writes the round log and then the reward log, if that was asked for. -/
def writeLogs (c : Config α) (logs : Logs α) : m (Except (Error α) Unit) := do
  match ← writeRoundLog c.output logs.names logs.rounds, c.rewardOutput with
  | .ok (), some path => writeLog path (logs.rewards.render logs.names)
  | answer, _ => pure answer

/-- Does what was requested: the logs of a run are written when it is over. -/
def execute [RandomSource ρ α] (engine : Lp.Engine α) (generator : UInt64 → ρ) (entropy : UInt64)
    (request : Request α) : m (Except (Error α) Unit) := do
  match ← attempt engine generator entropy request with
  | .error e => pure (.error e)
  | .ok none => pure (.ok ())
  | .ok (some logs) => writeLogs request.config logs

/-- What the command answers to its caller. The words for a misuse are not part of it. -/
structure Exit where
  code : Nat
  complaint : Option String
  deriving Repr, DecidableEq

def Exit.ofAnswer : Except (Error α) Unit → Exit
  | .ok () => ⟨0, some ""⟩
  | .error e => ⟨1, some ("pathbandit: " ++ e.message ++ "\n")⟩

def run [RandomSource ρ α] (engine : Lp.Engine α) (generator : UInt64 → ρ) (entropy : UInt64)
    (arguments : List String) : m Exit := do
  match (readArguments arguments : Except Stop (Request α)) with
  | .error .help => pure ⟨0, some ""⟩
  | .error .misuse => pure ⟨2, none⟩
  | .ok request =>
    let answer ← execute engine generator entropy request
    pure (Exit.ofAnswer answer)

end PathSelection.Command
