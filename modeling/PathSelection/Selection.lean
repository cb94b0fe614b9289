import PathSelection.Lp.Program

namespace PathSelection

/-- The resource that a constrained policy bounds. -/
inductive Resource where
  | latency
  | loss
  | bandwidth
  deriving Repr, DecidableEq

def Resource.text : Resource → String
  | .latency => "latency"
  | .loss => "loss"
  | .bandwidth => "bandwidth"

inductive PolicyKind where
  | constrained (resource : Resource)
  | thompson
  | klUcb
  | exp3
  | uniform
  deriving Repr, DecidableEq

namespace PolicyKind

/-- Whether the kind solves a linear program in each round. -/
def isConstrained : PolicyKind → Bool
  | .constrained _ => true
  | _ => false

/-- The name by which a kind is requested. -/
def text : PolicyKind → String
  | .constrained resource => "conmpts-" ++ resource.text
  | .thompson => "mpts"
  | .klUcb => "klucb"
  | .exp3 => "exp3m"
  | .uniform => "random"

def logName : PolicyKind → String
  | .constrained .latency => "ConMPTSLatency"
  | .constrained .loss => "ConMPTSLoss"
  | .constrained .bandwidth => "ConMPTSBandwidth"
  | .thompson => "MP-TS"
  | .klUcb => "KL-UCB"
  | .exp3 => "EXP3M"
  | .uniform => "RANDOM"

/-- The kind with the given name, in any case and with dashes, underscores and points anywhere. -/
def parse {α : Type} (s : String) : Except (Error α) PolicyKind :=
  let letters := s.toList.filter fun c => !(c == '-' || c == '_' || c == '.')
  match String.ofList (letters.map Char.toLower) with
  | "conmptslatency" | "latency" => .ok (.constrained .latency)
  | "conmptsloss" | "loss" => .ok (.constrained .loss)
  | "conmptsbandwidth" | "bandwidth" => .ok (.constrained .bandwidth)
  | "mpts" => .ok .thompson
  | "klucb" => .ok .klUcb
  | "exp3m" => .ok .exp3
  | "random" => .ok .uniform
  | _ => .error (.invalidParameter "policy" (.text s))

end PolicyKind

/-- Why a policy selected its paths. -/
inductive Note (α : Type) where
  /-- The linear program had an optimum, which was rounded. -/
  | feasible (objective : α)
  /-- The linear program failed; the paths of least cost were taken. -/
  | programFallback (reason : Lp.Failure α)
  /-- The optimum could not be rounded; the paths of least cost were taken. -/
  | roundingFallback (reason : Error α)
  /-- The estimates were drawn from the posterior distributions. -/
  | sampledPosterior
  /-- The estimates were running averages. -/
  | averagedEstimates
  /-- The paths of the largest indices, of which some were not tried yet. -/
  | largestIndices (untried : Nat)
  /-- The leaders by mean and one challenger by index. -/
  | leadersAndChallenger (challenger : Nat)
  /-- The heaviest weights were capped. -/
  | cappedWeights (cap : α)
  /-- Every path was requested. -/
  | allPaths
  /-- The paths were drawn uniformly. -/
  | uniform
  deriving Repr, DecidableEq

structure Selection (α : Type) where
  policy : PolicyKind
  paths : List Nat
  probabilities : Option (List α)
  notes : List (Note α)
  deriving Repr, DecidableEq

/-- Whether the paths of least cost replaced the regular decision. -/
def Selection.usedFallback {α : Type} (s : Selection α) : Bool :=
  s.notes.any fun note =>
    match note with
    | .programFallback _ | .roundingFallback _ => true
    | _ => false

end PathSelection
