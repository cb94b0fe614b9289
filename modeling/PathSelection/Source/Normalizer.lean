import PathSelection.Metric
import PathSelection.Error

namespace PathSelection

/-- The counters of one path. A round-trip time of zero marks an unused slot. -/
structure RawCounters where
  roundTrip : Nat
  bottleneck : Nat
  lost : Nat
  delivered : Nat
  deriving Repr, DecidableEq

/-- The upper bounds by which counters are scaled; both are positive. -/
structure Normalizer where
  maxRoundTrip : Nat
  maxBottleneck : Nat
  deriving Repr, DecidableEq

namespace Normalizer

/-- A normalizer with positive bounds. -/
def new {α : Type} (maxRoundTrip maxBottleneck : Nat) : Except (Error α) Normalizer :=
  if maxRoundTrip = 0 then .error (.invalidParameter "max_rtt" (.text "0"))
  else if maxBottleneck = 0 then .error (.invalidParameter "max_btlbw" (.text "0"))
  else .ok ⟨maxRoundTrip, maxBottleneck⟩

variable {α : Type} [Scalar α]

/-- The measurement of one path: the latency is at most one, and without deliveries there is no
loss. -/
def scale (n : Normalizer) (raw : RawCounters) : Metric α :=
  { latency := Scalar.min ((raw.roundTrip : α) / (n.maxRoundTrip : α)) 1
    bandwidth := (raw.bottleneck : α) / (n.maxBottleneck : α)
    loss := if raw.delivered = 0 then 0 else (raw.lost : α) / (raw.delivered : α) }

/-- The measurements of the slots that are used. -/
def normalize (n : Normalizer) (raw : List RawCounters) : List (Metric α) :=
  (raw.filter fun s => s.roundTrip != 0).map n.scale

end Normalizer

end PathSelection
