import PathSelection.Command.Run
import PathSelection.Proofs.Log.Bag

namespace PathSelection

namespace RoundLog

variable {α : Type}

/-- What changes a round log: an event is recorded, or another log is added to it. -/
inductive Operation (α : Type) where
  | record (e : Event α)
  | merge (other : RoundLog α)

/-- The repetitions that come with an operation to a disabled log of the given shape. -/
def Operation.brings (policies paths : Nat) : Operation α → Nat
  | .record _ => 0
  | .merge other =>
    if (other.policies, other.rounds, other.paths) = (policies, 0, paths) then other.repetitions
    else 0

variable [Scalar α]

/-- The log after an operation. A log that cannot be added changes nothing. -/
def Operation.perform (log : RoundLog α) : Operation α → RoundLog α
  | .record e => Recorder.record e log
  | .merge other => (log.absorb other).2

/-- The log after operations one after the other. -/
def performAll (operations : List (Operation α)) (log : RoundLog α) : RoundLog α :=
  operations.foldl Operation.perform log

theorem performAll_cons (operation : Operation α) (operations : List (Operation α))
    (log : RoundLog α) :
    performAll (operation :: operations) log = performAll operations (operation.perform log) := rfl

section Disabled

variable (policies paths repetitions : Nat)

/-- A disabled log that came to some repetitions. -/
def disabledWith : RoundLog α := { disabled policies paths with repetitions := repetitions }

theorem record_disabledWith (e : Event α) :
    Recorder.record e (disabledWith policies paths repetitions : RoundLog α) =
      disabledWith policies paths repetitions := by
  cases e <;> rfl

/-- A merge compares shapes, and the cells of a disabled log are none. -/
theorem absorb_disabledWith (other : RoundLog α) :
    ((disabledWith policies paths repetitions).absorb other).2 =
      disabledWith policies paths
        (repetitions + (Operation.merge other).brings policies paths) := by
  by_cases hshape : (other.policies, other.rounds, other.paths) = (policies, 0, paths)
  · have hbrings : (Operation.merge other).brings policies paths = other.repetitions :=
      if_pos hshape
    obtain ⟨hpolicies, hrounds, hpaths⟩ :
        other.policies = policies ∧ other.rounds = 0 ∧ other.paths = paths := by
      simpa using hshape
    rw [hbrings, absorb, RoundLog.merge, if_pos ⟨hpolicies.symm, hrounds.symm, hpaths.symm⟩]
    simp [disabledWith, disabled]
  · have hbrings : (Operation.merge other).brings policies paths = 0 := if_neg hshape
    rw [hbrings, absorb_of_shape_ne hshape]
    rfl

theorem perform_disabledWith (operation : Operation α) :
    operation.perform (disabledWith policies paths repetitions) =
      disabledWith policies paths (repetitions + operation.brings policies paths) := by
  cases operation with
  | record e => exact record_disabledWith policies paths repetitions e
  | merge other => exact absorb_disabledWith policies paths repetitions other

theorem performAll_disabledWith (operations : List (Operation α)) :
    performAll operations (disabledWith policies paths repetitions) =
      disabledWith policies paths
        (repetitions + (operations.map (Operation.brings policies paths)).sum) := by
  induction operations generalizing repetitions with
  | nil => rfl
  | cons operation operations ih =>
    rw [performAll_cons, perform_disabledWith, ih, List.map_cons, List.sum_cons, Nat.add_assoc]

/-- Whatever is recorded in a disabled log and whatever is added to it, it answers zero to each
question, and neither a text nor a file is made of it. Its repetitions are not zero for ever: as
long as they fit into a word, they are those of the logs of its shape that were added. -/
theorem disabled_performAll [NumberText α] (operations : List (Operation α)) :
    let log : RoundLog α := performAll operations (disabled policies paths)
    ((operations.map (Operation.brings policies paths)).sum < 2 ^ 64 →
      log.repetitions = (operations.map (Operation.brings policies paths)).sum) ∧
    log.enabled = false ∧ log.selected = #[] ∧ log.metrics = #[] ∧
    (∀ policy round path, log.selectionFrequency policy round path = 0 ∧
      log.meanMetric policy round path = Metric.zero) ∧
    ∀ names : List String, log.render names = "" ∧
      ∀ (file : String) (d : Directory),
        (Command.writeRoundLog file names log : StateM Directory _) d =
          ((.ok (), d) : Except (Error α) Unit × Directory) := by
  intro log
  have hlog : log = disabledWith policies paths
      (0 + (operations.map (Operation.brings policies paths)).sum) :=
    performAll_disabledWith policies paths 0 operations
  rw [hlog, Nat.zero_add]
  exact ⟨fun _ => rfl, rfl, rfl, rfl, fun _ _ _ => ⟨rfl, rfl⟩, fun _ => ⟨rfl, fun _ _ => rfl⟩⟩

end Disabled

/-- A disabled log counts the repetition of an enabled log without rounds that is added to it. -/
theorem disabled_counts_repetition :
    (performAll [.merge (Recorder.record (.began : Event ℝ) (new 1 0 2))]
      (disabled 1 2 : RoundLog ℝ)).repetitions = 1 := rfl

end RoundLog

end PathSelection
