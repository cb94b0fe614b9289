import PathSelection.Scalar

namespace PathSelection

structure Metric (α : Type) where
  latency : α
  bandwidth : α
  loss : α
  deriving Repr, BEq, DecidableEq

namespace Metric

variable {α : Type} [Scalar α]

/-- The measurement that is zero throughout. -/
def zero : Metric α := ⟨0, 0, 0⟩

instance : Add (Metric α) where
  add a b := ⟨a.latency + b.latency, a.bandwidth + b.bandwidth, a.loss + b.loss⟩

/-- The mean of a sum over `n` measurements; the mean over none is zero. -/
def average (sum : Metric α) (n : Nat) : Metric α :=
  if n = 0 then zero
  else ⟨sum.latency / (n : α), sum.bandwidth / (n : α), sum.loss / (n : α)⟩

def text [NumberText α] (m : Metric α) : String :=
  NumberText.plain m.latency ++ "\t" ++ NumberText.plain m.bandwidth ++ "\t" ++
    NumberText.plain m.loss

end Metric

end PathSelection
