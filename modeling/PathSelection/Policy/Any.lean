import PathSelection.Policy.Constrained
import PathSelection.Policy.Exp3
import PathSelection.Policy.KlUcb
import PathSelection.Policy.Thompson
import PathSelection.Policy.Uniform

namespace PathSelection

/-- A policy of any kind. -/
inductive Policy (ρ α : Type) where
  | constrained (p : Constrained ρ α)
  | thompson (p : Thompson ρ α)
  | klUcb (p : KlUcb α)
  | exp3 (p : Exp3 ρ α)
  | uniform (p : UniformChoice ρ)

namespace Policy

variable {ρ α : Type} [Scalar α] [RandomSource ρ α]

/-- Applies an operation on the state of a policy, and puts the new state back. -/
def lift {π β : Type} (wrap : π → Policy ρ α) (answer : β × π) : β × Policy ρ α :=
  (answer.1, wrap answer.2)

instance : PathPolicy (Policy ρ α) α where
  kind
    | .constrained p => PathPolicy.kind p
    | .thompson p => PathPolicy.kind p
    | .klUcb p => PathPolicy.kind p
    | .exp3 p => PathPolicy.kind p
    | .uniform p => PathPolicy.kind (α := α) p
  available
    | .constrained p => PathPolicy.available p
    | .thompson p => PathPolicy.available p
    | .klUcb p => PathPolicy.available p
    | .exp3 p => PathPolicy.available p
    | .uniform p => PathPolicy.available (α := α) p
  decide m
    | .constrained p => lift .constrained (PathPolicy.decide m p)
    | .thompson p => lift .thompson (PathPolicy.decide m p)
    | .klUcb p => lift .klUcb (PathPolicy.decide m p)
    | .exp3 p => lift .exp3 (PathPolicy.decide m p)
    | .uniform p => lift .uniform (PathPolicy.decide m p)
  update selected measurements
    | .constrained p => lift .constrained (PathPolicy.update selected measurements p)
    | .thompson p => lift .thompson (PathPolicy.update selected measurements p)
    | .klUcb p => lift .klUcb (PathPolicy.update selected measurements p)
    | .exp3 p => lift .exp3 (PathPolicy.update selected measurements p)
    | .uniform p => lift .uniform (PathPolicy.update selected measurements p)
  decideAveraged m
    | .constrained p => lift .constrained (PathPolicy.decideAveraged m p)
    | .thompson p => lift .thompson (PathPolicy.decideAveraged m p)
    | .klUcb p => lift .klUcb (PathPolicy.decideAveraged m p)
    | .exp3 p => lift .exp3 (PathPolicy.decideAveraged m p)
    | .uniform p => lift .uniform (PathPolicy.decideAveraged m p)
  updateDamped selected measurements
    | .constrained p => lift .constrained (PathPolicy.updateDamped selected measurements p)
    | .thompson p => lift .thompson (PathPolicy.updateDamped selected measurements p)
    | .klUcb p => lift .klUcb (PathPolicy.updateDamped selected measurements p)
    | .exp3 p => lift .exp3 (PathPolicy.updateDamped selected measurements p)
    | .uniform p => lift .uniform (PathPolicy.updateDamped selected measurements p)
  updateAveraged selected measurements
    | .constrained p => lift .constrained (PathPolicy.updateAveraged selected measurements p)
    | .thompson p => lift .thompson (PathPolicy.updateAveraged selected measurements p)
    | .klUcb p => lift .klUcb (PathPolicy.updateAveraged selected measurements p)
    | .exp3 p => lift .exp3 (PathPolicy.updateAveraged selected measurements p)
    | .uniform p => lift .uniform (PathPolicy.updateAveraged selected measurements p)
  oracle
    | .constrained p => PathPolicy.oracle p
    | .thompson p => PathPolicy.oracle p
    | .klUcb p => PathPolicy.oracle p
    | .exp3 p => PathPolicy.oracle p
    | .uniform p => PathPolicy.oracle p

def info [NumberText α] : Policy ρ α → String
  | .constrained p => p.info
  | .thompson p => p.info
  | .klUcb p => p.info
  | .exp3 p => p.info
  | .uniform p => p.info

end Policy

end PathSelection
