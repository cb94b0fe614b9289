import PathSelection.Source.Basic
import PathSelection.Source.Normalizer

namespace PathSelection

/-- The state of a replay: what is left of the script, how many snapshots were taken from it, the
current snapshot, and the selections that were delivered, the last one first. -/
structure Replay (α : Type) where
  paths : Nat
  script : List (List (Metric α))
  consumed : Nat
  current : List (Metric α)
  delivered : List (List Nat)
  deriving Repr, DecidableEq

namespace Replay

variable {α : Type}

/-- A replay with the given number of paths. -/
def withPathCount (paths : Nat) (script : List (List (Metric α))) : Replay α :=
  ⟨paths, script, 0, [], []⟩

/-- A replay with as many paths as the widest snapshot has. -/
def new (script : List (List (Metric α))) : Replay α :=
  withPathCount ((script.map List.length).foldl Nat.max 0) script

/-- A replay of raw counters. -/
def ofRaw [Scalar α] (paths : Nat) (normalizer : Normalizer) (raw : List (List RawCounters)) :
    Replay α :=
  withPathCount paths (raw.map normalizer.normalize)

/-- The selections that were delivered, in order. -/
def preferred (s : Replay α) : List (List Nat) := s.delivered.reverse

def sample (s : Replay α) (path : Nat) : Option (Metric α) := s.current[path]?

def refresh (s : Replay α) : FeedStatus × Replay α :=
  match s.script with
  | [] => (.exhausted, s)
  | next :: rest =>
    if next.length < s.paths then
      (.stale, { s with script := rest, consumed := s.consumed + 1 })
    else (.fresh, { s with script := rest, consumed := s.consumed + 1, current := next })

def prefer (selected : List Nat) (s : Replay α) : Replay α :=
  { s with delivered := selected :: s.delivered }

instance : MeasurementSource (Replay α) α where
  pathCount s := s.paths
  sample := sample
  refresh s := let (status, s) := s.refresh; (.ok status, s)
  prefer selected s := (.ok (), s.prefer selected)
  remaining s := s.script.length

theorem preferred_prefer (selected : List Nat) (s : Replay α) :
    (s.prefer selected).preferred = s.preferred ++ [selected] := by
  simp [preferred, prefer]

end Replay

end PathSelection
