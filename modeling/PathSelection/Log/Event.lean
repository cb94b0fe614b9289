import PathSelection.Metric
import PathSelection.Policy.Basic
import PathSelection.Source.Basic

namespace PathSelection

/-- The outcome of a round for one policy, in sums over the selected paths. -/
structure RoundReward (α : Type) where
  /-- The best value of a round, zero if it is not known. -/
  oracle : α
  /-- The bandwidth that was measured. -/
  reward : α
  /-- How much the reward falls short of the best value. -/
  regret : α
  /-- By how much the latencies exceed the threshold. -/
  violation : α
  deriving Repr, DecidableEq

/-- The events of a run. All but the first belong to a policy and a round. -/
inductive Event (α : Type) where
  | began
  | decided (policy round : Nat) (mode : RoundMode) (selection : Selection α)
  /-- The selection was delivered to the source. -/
  | preferred (policy round : Nat) (paths : List Nat)
  /-- The source was asked for a fresh snapshot. -/
  | refreshed (policy round : Nat) (status : FeedStatus)
  | measured (policy round path : Nat) (metric : Metric α)
  /-- A path is one of the selected ones. -/
  | selected (policy round path : Nat)
  | updated (policy round : Nat) (mode : RoundMode) (paths : List Nat) (metrics : List (Metric α))
  /-- The round was valued. -/
  | rewarded (policy round : Nat) (reward : RoundReward α)
  deriving Repr

/-- A record of a run, which takes in one event at a time. -/
class Recorder (τ α : Type) where
  record : Event α → τ → τ

/-- Two records are kept side by side. -/
instance {τ υ α : Type} [Recorder τ α] [Recorder υ α] : Recorder (τ × υ) α where
  record e logs :=
    let (first, second) := logs
    (Recorder.record e first, Recorder.record e second)

/-- All events of a run, the last one first. -/
structure History (α : Type) where
  reversed : List (Event α)
  deriving Repr

namespace History

variable {α : Type}

/-- The events in the order in which they happened. -/
def toList (h : History α) : List (Event α) := h.reversed.reverse

instance : Recorder (History α) α where
  record e h := ⟨e :: h.reversed⟩

theorem toList_record (e : Event α) (h : History α) :
    (Recorder.record e h : History α).toList = h.toList ++ [e] := by
  simp [toList, Recorder.record]

end History

/-- The selections of a run, the last one first. The last entry is complete when a repetition began
after it. -/
structure SelectionTrace where
  reversed : List (Nat × Nat × List Nat)
  complete : Bool
  deriving Repr, DecidableEq

namespace SelectionTrace

def empty : SelectionTrace := ⟨[], true⟩

/-- The policy, the round and the paths of each selection that is not empty, in order. -/
def toList (trace : SelectionTrace) : List (Nat × Nat × List Nat) := trace.reversed.reverse

/-- A selected path joins the last entry if that is not complete and of the same policy and round,
and else begins a new one. -/
def add {α : Type} (e : Event α) (trace : SelectionTrace) : SelectionTrace :=
  match e with
  | .began => { trace with complete := true }
  | .selected policy round path =>
    match trace.reversed, trace.complete with
    | (lastPolicy, lastRound, paths) :: rest, false =>
      if lastPolicy = policy ∧ lastRound = round then
        ⟨(policy, round, paths ++ [path]) :: rest, false⟩
      else ⟨(policy, round, [path]) :: trace.reversed, false⟩
    | _, _ => ⟨(policy, round, [path]) :: trace.reversed, false⟩
  | _ => trace

instance {α : Type} : Recorder SelectionTrace α where
  record := add

end SelectionTrace

end PathSelection
