import PathSelection.Metric
import PathSelection.Error

namespace PathSelection

/-- How a source answers the request for a fresh snapshot. -/
inductive FeedStatus where
  /-- There is a new snapshot of every path. -/
  | fresh
  /-- There are not enough paths yet. -/
  | stale
  /-- There will be no more snapshots. -/
  | exhausted
  deriving Repr, DecidableEq

def FeedStatus.text : FeedStatus → String
  | .fresh => "fresh"
  | .stale => "stale"
  | .exhausted => "exhausted"

/-- A source of measurements. Its requests may fail; the state that they leave is part of the
answer. -/
class MeasurementSource (σ : Type) (α : outParam Type) where
  /-- How many paths the source reports. -/
  pathCount : σ → Nat
  sample : σ → Nat → Option (Metric α)
  refresh : σ → Except (Error α) FeedStatus × σ
  prefer : List Nat → σ → Except (Error α) Unit × σ
  /-- How many requests for a snapshot the source answers before it is exhausted. -/
  remaining : σ → Nat

/-- Waits until a source reports enough paths. A source whose count does not change while one waits
either has enough from the start or has not when the time is over. -/
def waitForPaths {σ α : Type} [MeasurementSource σ α] (wanted timeoutMilliseconds : Nat)
    (source : σ) : Except (Error α) Nat :=
  let reported := MeasurementSource.pathCount source
  if wanted ≤ reported then .ok reported
  else .error (.sourceTimeout timeoutMilliseconds wanted reported)

end PathSelection
