import PathSelection.Log.Event

namespace PathSelection

namespace RoundReward

variable {α : Type} [Scalar α]

/-- Nothing gained and nothing lost. -/
def zero : RoundReward α := ⟨0, 0, 0, 0⟩

instance : Add (RoundReward α) where
  add a b := ⟨a.oracle + b.oracle, a.reward + b.reward, a.regret + b.regret,
    a.violation + b.violation⟩

/-- The averages over some repetitions; a negative violation counts as none. -/
def average (r : RoundReward α) (repetitions : Nat) : RoundReward α :=
  let n : α := ((Nat.max repetitions 1 : Nat) : α)
  ⟨r.oracle / n, r.reward / n, r.regret / n, Scalar.max (r.violation / n) 0⟩

end RoundReward

/-- Sums for each policy and round; cell `(p, t)` is number `p * rounds + t`. -/
structure RewardLog (α : Type) where
  policies : Nat
  rounds : Nat
  repetitions : Nat
  cells : Array (RoundReward α)
  deriving Repr, DecidableEq

namespace RewardLog

variable {α : Type} [Scalar α]

def new (policies rounds : Nat) : RewardLog α :=
  ⟨policies, rounds, 0, Array.replicate (policies * rounds) RoundReward.zero⟩

/-- The sum of a policy in a round, if the log has one. -/
def get? (log : RewardLog α) (policy round : Nat) : Option (RoundReward α) :=
  if policy < log.policies ∧ round < log.rounds then log.cells[policy * log.rounds + round]?
  else none

/-- Counts one more repetition. -/
def begin (log : RewardLog α) : RewardLog α := { log with repetitions := log.repetitions + 1 }

def recordReward (policy round : Nat) (reward : RoundReward α) (log : RewardLog α) :
    RewardLog α :=
  if policy < log.policies ∧ round < log.rounds then
    { log with cells := log.cells.modify (policy * log.rounds + round) (· + reward) }
  else log

instance : Recorder (RewardLog α) α where
  record e log :=
    match e with
    | .began => log.begin
    | .rewarded policy round reward => log.recordReward policy round reward
    | _ => log

/-- The sum of a policy over all rounds up to the given one. -/
def total (log : RewardLog α) (policy round : Nat) : RoundReward α :=
  (List.range (Nat.min round (log.rounds - 1) + 1)).foldl (fun sum t =>
    match log.get? policy t with
    | some r => sum + r
    | none => sum) RoundReward.zero

/-- The averaged sum of a policy over all rounds up to the given one. -/
def cumulative (log : RewardLog α) (policy round : Nat) : RoundReward α :=
  (log.total policy round).average log.repetitions

/-- Adds the sums of another log of the same shape. -/
def merge (log other : RewardLog α) : Except (Error α) (RewardLog α) :=
  if log.policies = other.policies ∧ log.rounds = other.rounds then
    .ok { log with
      repetitions := log.repetitions + other.repetitions
      cells := log.cells.mapIdx fun c r =>
        match other.cells[c]? with
        | some r' => r + r'
        | none => r }
  else .error (.lengthMismatch log.cells.size other.cells.size)

/-- The lines above the rows: what the log averages, the policies, and the names of the columns. -/
def header (log : RewardLog α) (names : List String) : List String :=
  let columns := ["oracle", "reward", "regret", "violation"].flatMap fun label =>
    names.map fun name => label ++ "(" ++ name ++ ")"
  ["#averaged result over " ++ toString log.repetitions ++ " simulations."] ++
    (names.zipIdx.map fun (name, p) => "#policy " ++ toString p ++ " " ++ name) ++
    ["#results:", String.intercalate " " ("#T" :: columns)]

/-- The sums after one more round. -/
def accumulate (log : RewardLog α) (round : Nat) (sums : List (RoundReward α)) :
    List (RoundReward α) :=
  sums.mapIdx fun p sum =>
    match log.get? p round with
    | some r => sum + r
    | none => sum

/-- The numbers of a row: the four quantities, each for all policies. -/
def rowValues (log : RewardLog α) (sums : List (RoundReward α)) : List α :=
  let averages := sums.map fun sum => sum.average log.repetitions
  averages.map RoundReward.oracle ++ averages.map RoundReward.reward ++
    averages.map RoundReward.regret ++ averages.map RoundReward.violation

/-- The fields of `count` rows from a round on, when the sums up to that round are known. -/
def rowsFrom [NumberText α] (log : RewardLog α) (sums : List (RoundReward α)) :
    Nat → Nat → List (List String)
  | 0, _ => []
  | count + 1, round =>
    let sums := log.accumulate round sums
    (toString (round + 1) :: (log.rowValues sums).map (NumberText.fixed 6)) ::
      rowsFrom log sums count (round + 1)

/-- The lines of the log, for the policies that have a name. -/
def lines [NumberText α] (log : RewardLog α) (names : List String) : List String :=
  let sums := List.replicate (Nat.min names.length log.policies) RoundReward.zero
  log.header names ++ (log.rowsFrom sums log.rounds 0).map (String.intercalate " ")

/-- The text of the log. -/
def render [NumberText α] (log : RewardLog α) (names : List String) : String :=
  String.join ((log.lines names).map (· ++ "\n"))

end RewardLog

end PathSelection
