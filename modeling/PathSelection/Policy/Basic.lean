import PathSelection.Metric
import PathSelection.Ranking
import PathSelection.Selection

namespace PathSelection

/-- Fails when more paths are requested than there are. -/
def checkPlays {α : Type} (wanted available : Nat) : Except (Error α) Unit :=
  if available < wanted then .error (.tooManyPaths wanted available) else .ok ()

/-- Fails unless there is one measurement for each selected path and all of them are paths of the
policy. The first index that is none is reported. -/
def checkFeedback {α : Type} (available : Nat) (selected : List Nat)
    (measurements : List (Metric α)) : Except (Error α) Unit :=
  match ensureSameLength selected.length measurements.length with
  | .error e => .error e
  | .ok () =>
    match selected.find? fun i => decide (available ≤ i) with
    | some i => .error (.indexOutOfRange i available)
    | none => .ok ()

theorem checkFeedback_eq_ok {α : Type} {available : Nat} {selected : List Nat}
    {measurements : List (Metric α)} :
    checkFeedback available selected measurements = .ok () ↔
      selected.length = measurements.length ∧ ∀ i ∈ selected, i < available := by
  unfold checkFeedback ensureSameLength
  split
  · next h =>
    split at h
    · exact absurd h (by simp)
    · next hne => simp [hne]
  · next h =>
    split at h
    · next heq =>
      split
      · next i hfind =>
        have hmem := List.mem_of_find?_eq_some hfind
        have hle := List.find?_some hfind
        refine iff_of_false (by simp) fun hall => ?_
        exact absurd (hall.2 i hmem) (Nat.not_lt.mpr (of_decide_eq_true hle))
      · next hfind =>
        refine iff_of_true rfl ⟨heq, fun i hi => ?_⟩
        have hlt := List.find?_eq_none.mp hfind i hi
        simpa using hlt
    · exact absurd h (by simp)

/-- The sum of the `m` largest bandwidths, the best that can be had without constraints. -/
def bestBandwidth {α : Type} [Scalar α] (means : List (Metric α)) (m : Nat) : Option α :=
  if means.length < m then none
  else
    let bandwidths := means.map Metric.bandwidth
    some (Scalar.sum ((topIndices Scalar.totalLe bandwidths m).map fun i => bandwidths.getD i 0))

/-- A policy that selects some of a fixed number of paths in each round and learns from the
measurements of those. An operation that fails still answers the state that it leaves. The damped
and the averaged operations are the plain ones unless a policy has its own. -/
class PathPolicy (π : Type) (α : outParam Type) [Scalar α] where
  kind : π → PolicyKind
  /-- How many paths the policy was made for. -/
  available : π → Nat
  /-- Selects the given number of paths. -/
  decide : Nat → π → Except (Error α) (Selection α) × π
  /-- Learns from the measurements of the selected paths, in the order of the selection. -/
  update : List Nat → List (Metric α) → π → Except (Error α) Unit × π
  /-- Selects by running averages. -/
  decideAveraged : Nat → π → Except (Error α) (Selection α) × π := decide
  /-- Learns and forgets. -/
  updateDamped : List Nat → List (Metric α) → π → Except (Error α) Unit × π := update
  /-- Learns running averages. -/
  updateAveraged : List Nat → List (Metric α) → π → Except (Error α) Unit × π := update
  /-- The best value of a round with the given number of paths, if the means of all paths are
  known. -/
  oracle : π → List (Metric α) → Nat → Option α := fun _ => bestBandwidth

/-- Which operations a run uses. -/
inductive RoundMode where
  | vanilla
  | damped
  | averaged
  deriving Repr, DecidableEq

namespace RoundMode

def text : RoundMode → String
  | .vanilla => "vanilla"
  | .damped => "damped"
  | .averaged => "averaged"

/-- The mode with the given name, in any case. -/
def parse {α : Type} (s : String) : Except (Error α) RoundMode :=
  let name := String.ofList (s.toList.map Char.toLower)
  match name with
  | "vanilla" => .ok .vanilla
  | "damped" => .ok .damped
  | "averaged" | "avg" => .ok .averaged
  | _ => .error (.invalidParameter "mode" (.text name))

variable {π α : Type} [Scalar α] [PathPolicy π α]

/-- The decision of a policy in this mode. -/
def decide (mode : RoundMode) (m : Nat) (p : π) : Except (Error α) (Selection α) × π :=
  match mode with
  | .vanilla | .damped => PathPolicy.decide m p
  | .averaged => PathPolicy.decideAveraged m p

/-- What a policy learns in this mode. -/
def update (mode : RoundMode) (selected : List Nat) (measurements : List (Metric α)) (p : π) :
    Except (Error α) Unit × π :=
  match mode with
  | .vanilla => PathPolicy.update selected measurements p
  | .damped => PathPolicy.updateDamped selected measurements p
  | .averaged => PathPolicy.updateAveraged selected measurements p

end RoundMode

end PathSelection
