import PathSelection.Policy.Program
import PathSelection.Proofs.Log.Disabled
import PathSelection.Proofs.Log.Rewards
import PathSelection.Proofs.Policy.Checked

namespace PathSelection

/-- The first two numbers of a list of pairs that differ. -/
inductive FirstMismatch (left right : Nat) : List (Nat × Nat) → Prop
  | here (hne : left ≠ right) (rest : List (Nat × Nat)) :
    FirstMismatch left right ((left, right) :: rest)
  | there (n : Nat) {rest : List (Nat × Nat)} (hrest : FirstMismatch left right rest) :
    FirstMismatch left right ((n, n) :: rest)

/-- A result that fails for a mismatch of lengths iff some of the given pairs differ, and then
reports the first one that does. -/
def Compares {α τ : Type} (pairs : List (Nat × Nat)) (result : Except (Error α) τ) : Prop :=
  ∀ left right, result = .error (.lengthMismatch left right) ↔ FirstMismatch left right pairs

/-- A change that can fail, made in place. One that fails leaves all as it was. -/
def inPlace {α τ : Type} (change : τ → Except (Error α) τ) (receiver : τ) :
    Except (Error α) Unit × τ :=
  match change receiver with
  | .ok next => (.ok (), next)
  | .error e => (.error e, receiver)

section Compares

variable {α τ : Type} {pairs : List (Nat × Nat)} {result : Except (Error α) τ}

theorem not_firstMismatch_nil {left right : Nat} : ¬ FirstMismatch left right [] := by
  intro h
  cases h

/-- The first pair is the one that is reported, or else it does not count. -/
theorem firstMismatch_cons {left right a b : Nat} :
    FirstMismatch left right ((a, b) :: pairs) ↔
      if a = b then FirstMismatch left right pairs else left = a ∧ right = b := by
  constructor
  · intro h
    cases h with
    | here hne => rw [if_neg hne]; exact ⟨rfl, rfl⟩
    | there n hrest => rwa [if_pos rfl]
  · intro h
    split at h
    · next heq => exact heq ▸ .there a h
    · next hne =>
      obtain ⟨rfl, rfl⟩ := h
      exact .here hne pairs

theorem compares_nil (h : ∀ left right, result ≠ .error (.lengthMismatch left right)) :
    Compares [] result :=
  fun left right => iff_of_false (h left right) not_firstMismatch_nil

/-- Two lengths are compared, and if they are equal, what follows compares some more. -/
theorem compares_cons {left right : Nat} (hsame : left = right → Compares pairs result)
    (hne : left ≠ right → result = .error (.lengthMismatch left right)) :
    Compares ((left, right) :: pairs) result := by
  intro l r
  rw [firstMismatch_cons]
  by_cases h : left = right
  · rw [if_pos h]
    exact hsame h l r
  · rw [if_neg h, hne h]
    simp only [Except.error.injEq, Error.lengthMismatch.injEq, eq_comm]

theorem compares_ensureSameLength {left right : Nat} (h : left = right → Compares pairs result) :
    Compares ((left, right) :: pairs)
      (match (ensureSameLength left right : Except (Error α) Unit) with
      | .error e => .error e
      | .ok () => result) := by
  unfold ensureSameLength
  refine compares_cons (fun heq => ?_) fun hne => ?_
  · rw [if_pos heq]
    exact h heq
  · rw [if_neg hne]

theorem compares_inPlace {change : τ → Except (Error α) τ} {receiver : τ}
    (h : Compares pairs (change receiver)) : Compares pairs (inPlace change receiver).1 := by
  intro left right
  rw [← h left right, inPlace]
  cases change receiver <;> simp

theorem inPlace_unchanged {change : τ → Except (Error α) τ} {receiver : τ} {e : Error α}
    (h : (inPlace change receiver).1 = .error e) : (inPlace change receiver).2 = receiver := by
  unfold inPlace at h ⊢
  cases hchange : change receiver with
  | ok next =>
    rw [hchange] at h
    exact absurd h (by simp)
  | error e' => rfl

end Compares

section Lists

variable {α : Type}

theorem Matrix.compares_setRow (a : Matrix α) (r : Nat) (values : List α) :
    Compares [(values.length, a.columns)] (a.setRow r values) := by
  refine compares_ensureSameLength fun _ => compares_nil fun left right => ?_
  unfold ensureBelow
  split
  · next h =>
    split at h
    · exact absurd h (by simp)
    · exact Except.error.inj h ▸ by simp
  · simp

theorem Lp.Program.compares_new (matrix : Matrix α) (bounds costs : List α) (total : α)
    (direction : Lp.Direction) :
    Compares
      (if matrix.rows = 0 then []
        else [(bounds.length, matrix.rows - 1), (costs.length, matrix.columns)])
      (Lp.Program.new matrix bounds costs total direction) := by
  unfold Lp.Program.new
  split
  · exact compares_nil fun left right => by simp
  · exact compares_ensureSameLength fun _ => compares_ensureSameLength fun _ =>
      compares_nil fun left right => by simp

variable [Scalar α]

/-- The builder of a program compares its two lists, and for lists of one length the program fits
together. -/
theorem Lp.compares_resourceProgram (resource : Resource) (costs bandwidths : List α) (m : Nat)
    (bound : α) :
    Compares [(costs.length, bandwidths.length)]
      (Lp.resourceProgram resource costs bandwidths m bound) := by
  refine compares_cons (fun h => compares_nil fun left right => ?_) fun h => ?_
  · obtain ⟨program, hprogram, -⟩ := Lp.resourceProgram_eq_ok resource h m bound
    rw [hprogram]
    simp
  · have hfail : (ensureSameLength costs.length bandwidths.length : Except (Error α) Unit) =
        .error (.lengthMismatch costs.length bandwidths.length) := if_neg h
    cases resource with
    | latency =>
      unfold Lp.resourceProgram Lp.latencyProgram
      rw [hfail]
    | loss =>
      unfold Lp.resourceProgram Lp.lossProgram
      rw [hfail]
    | bandwidth =>
      unfold Lp.resourceProgram Lp.bandwidthProgram
      rw [hfail]

theorem compares_dot (xs ys : List α) : Compares [(xs.length, ys.length)] (dot xs ys) :=
  compares_ensureSameLength fun _ => compares_nil fun left right => by simp

end Lists

section Policies

variable {ρ σ α : Type} [Scalar α] [RandomSource ρ α]

/-- What a policy is to learn is compared in length, and what is refused leaves the policy as it
was. -/
theorem Policy.compares_update (p : Policy ρ α) (mode : RoundMode) (selected : List Nat)
    (measurements : List (Metric α)) :
    Compares [(selected.length, measurements.length)]
        (mode.update selected measurements p).1 ∧
      ∀ e, (mode.update selected measurements p).1 = .error e →
        (mode.update selected measurements p).2 = p := by
  have hop := p.checked.learns mode selected measurements
  cases hcheck : checkFeedback (PathPolicy.available p) selected measurements with
  | ok =>
    obtain ⟨hlengths, -⟩ := checkFeedback_eq_ok.mp hcheck
    rw [(hop.accepts hcheck).1]
    exact ⟨compares_cons (fun _ => compares_nil (by simp)) (absurd hlengths), by simp⟩
  | error e =>
    rw [hop.refuses hcheck]
    refine ⟨?_, fun _ _ => rfl⟩
    cases checkFeedback_eq_error.mp hcheck with
    | lengths hne => exact compares_cons (fun h => absurd h hne) fun _ => rfl
    | missing _ _ _ hlengths =>
      exact compares_cons (fun _ => compares_nil (by simp)) (absurd hlengths)

theorem firstMismatch_map {π : Type} {left right : Nat} (k : Nat) (number : π → Nat)
    (policies : List π) :
    FirstMismatch left right (policies.map fun p => (k, number p)) ↔
      ∃ p, policies.find? (fun p => number p != k) = some p ∧ left = k ∧ right = number p := by
  induction policies with
  | nil => exact iff_of_false not_firstMismatch_nil (by simp)
  | cons p policies ih =>
    rw [List.map_cons, firstMismatch_cons, List.find?_cons]
    by_cases heq : number p = k
    · rw [if_pos heq.symm, heq, bne_self_eq_false]
      exact ih
    · rw [if_neg (Ne.symm heq), bne_iff_ne.mpr heq]
      simp

omit [RandomSource ρ α] in
/-- A run compares the number of its paths with that of each policy, unless too many are to be
selected. -/
theorem Simulator.compares_new {π : Type} [PathPolicy π α] [MeasurementSource σ α]
    (paths : List (Path ρ α)) (policies : List π) (c : Config α) (source : Option σ) :
    Compares
      (if c.plays ≤ paths.length then
        policies.map fun p => (paths.length, PathPolicy.available p)
      else [])
      (Simulator.new paths policies c source) := by
  unfold Simulator.new checkPlays
  dsimp only
  by_cases hplays : c.plays ≤ paths.length
  · rw [if_pos hplays, if_neg (Nat.not_lt.mpr hplays)]
    intro left right
    rw [firstMismatch_map]
    cases hfind : policies.find? fun p => PathPolicy.available p != paths.length with
    | none => simp
    | some p => simp [eq_comm]
  · rw [if_neg hplays, if_pos (Nat.lt_of_not_le hplays)]
    exact compares_nil fun left right => by simp

end Policies

/-- What a merge of two logs answers: it succeeds iff the logs have one shape, and else reports how
many cells such shapes have, which need not be two numbers, and changes nothing. -/
structure MergesShapes {α τ : Type} (shape otherShape : List Nat) (log : τ)
    (answer : Except (Error α) Unit × τ) : Prop where
  succeeds_iff : answer.1 = .ok () ↔ shape = otherShape
  refuses : shape ≠ otherShape →
    answer = (.error (.lengthMismatch shape.prod otherShape.prod), log)

section Merges

variable {α : Type}

theorem mergesShapes_inPlace {τ : Type} {shape otherShape : List Nat} {log : τ}
    {merge : τ → Except (Error α) τ} (hsame : shape = otherShape → ∃ merged, merge log = .ok merged)
    (hne : shape ≠ otherShape →
      merge log = .error (.lengthMismatch shape.prod otherShape.prod)) :
    MergesShapes shape otherShape log (inPlace merge log) := by
  unfold inPlace
  by_cases h : shape = otherShape
  · obtain ⟨merged, hmerged⟩ := hsame h
    rw [hmerged]
    exact ⟨iff_of_true rfl h, absurd h⟩
  · rw [hne h]
    exact ⟨iff_of_false (by simp) h, fun _ => rfl⟩

/-- The numbers of policies, rounds and paths of a log. -/
def RoundLog.shape (log : RoundLog α) : List Nat := [log.policies, log.rounds, log.paths]

/-- The numbers of policies and rounds of a log. -/
def RewardLog.shape (log : RewardLog α) : List Nat := [log.policies, log.rounds]

namespace RoundLog

theorem prod_shape (log : RoundLog α) :
    log.shape.prod = log.policies * log.rounds * log.paths := by
  simp [shape, Nat.mul_assoc]

theorem shape_eq_iff {log other : RoundLog α} :
    log.shape = other.shape ↔
      log.policies = other.policies ∧ log.rounds = other.rounds ∧ log.paths = other.paths := by
  simp [shape]

variable [Scalar α]

/-- The logs that arise from events and from merges, whether these succeed or fail. -/
inductive Reachable : RoundLog α → Prop
  | new (policies rounds paths : Nat) : Reachable (RoundLog.new policies rounds paths)
  | disabled (policies paths : Nat) : Reachable (RoundLog.disabled policies paths)
  | perform {log : RoundLog α} (operation : Operation α) (h : Reachable log) :
    Reachable (operation.perform log)

theorem Operation.sameShape_perform (log : RoundLog α) (operation : Operation α) :
    SameShape log (operation.perform log) := by
  cases operation with
  | record e => exact sameShape_record e log
  | merge other =>
    change SameShape log (log.absorb other).2
    by_cases hshape : log.shape = other.shape
    · obtain ⟨hpolicies, hrounds, hpaths⟩ := shape_eq_iff.mp hshape
      obtain ⟨merged, hmerge, hsame, -⟩ := merge_eq_ok hpolicies.symm hrounds.symm hpaths.symm
      rw [absorb, hmerge]
      exact hsame
    · rw [absorb_of_shape_ne fun h => hshape (shape_eq_iff.mpr (by simpa [eq_comm] using h))]
      exact .refl log

theorem Reachable.size_selected {log : RoundLog α} (h : Reachable log) :
    log.selected.size = log.shape.prod := by
  induction h with
  | new policies rounds paths =>
    rw [prod_shape]
    exact Array.size_replicate
  | disabled policies paths => simp [RoundLog.disabled, shape]
  | @perform log operation _ ih =>
    have hsame := operation.sameShape_perform log
    rw [hsame.size_eq, ih, prod_shape, prod_shape, hsame.policies_eq, hsame.rounds_eq,
      hsame.paths_eq]

theorem mergesShapes {log other : RoundLog α} (h : Reachable log) (h' : Reachable other) :
    MergesShapes log.shape other.shape log (inPlace (fun log => log.merge other) log) := by
  refine mergesShapes_inPlace (fun hsame => ?_) fun hne => ?_
  · obtain ⟨hpolicies, hrounds, hpaths⟩ := shape_eq_iff.mp hsame
    obtain ⟨merged, hmerge, -⟩ := merge_eq_ok hpolicies.symm hrounds.symm hpaths.symm
    exact ⟨merged, hmerge⟩
  · rw [← h.size_selected, ← h'.size_selected]
    exact if_neg fun hsame => hne (shape_eq_iff.mpr hsame)

end RoundLog

theorem RewardLog.mergesShapes [Scalar α] {log other : RewardLog α} (h : Reachable log)
    (h' : Reachable other) :
    MergesShapes log.shape other.shape log (inPlace (fun log => log.merge other) log) := by
  have hshape : log.shape = other.shape ↔
      log.policies = other.policies ∧ log.rounds = other.rounds := by
    simp [shape]
  have hcells {log : RewardLog α} (h : Reachable log) : log.cells.size = log.shape.prod := by
    rw [h.full]
    simp [shape]
  refine mergesShapes_inPlace (fun hsame => ?_) fun hne => ?_
  · exact ⟨_, if_pos (hshape.mp hsame)⟩
  · rw [← hcells h, ← hcells h']
    exact if_neg fun hsame => hne (hshape.mpr hsame)

end Merges

section Reported

variable {ρ σ α : Type} [Scalar α] [RandomSource ρ α] [MeasurementSource σ α]

/-- Of the operations that compare lengths, all but the merges fail for a mismatch iff some of the
numbers that they compare differ, and then report the first two of these, which are different
numbers; the matrix or the policy stays as it was. A merge succeeds iff the two logs have one shape,
and a log that is not merged stays as it was, but what is reported are numbers of cells. -/
theorem lengthMismatch_reported :
    (∀ (a : Matrix α) (r : Nat) (values : List α),
      let answer := inPlace (fun a => a.setRow r values) a
      Compares [(values.length, a.columns)] answer.1 ∧ ∀ e, answer.1 = .error e → answer.2 = a) ∧
    (∀ (matrix : Matrix α) (bounds costs : List α) (total : α) (direction : Lp.Direction),
      Compares
        (if matrix.rows = 0 then []
          else [(bounds.length, matrix.rows - 1), (costs.length, matrix.columns)])
        (Lp.Program.new matrix bounds costs total direction)) ∧
    (∀ (resource : Resource) (costs bandwidths : List α) (m : Nat) (bound : α),
      Compares [(costs.length, bandwidths.length)]
        (Lp.resourceProgram resource costs bandwidths m bound)) ∧
    (∀ xs ys : List α, Compares [(xs.length, ys.length)] (dot xs ys)) ∧
    (∀ (p : Policy ρ α) (mode : RoundMode) (selected : List Nat) (measurements : List (Metric α)),
      let answer := mode.update selected measurements p
      Compares [(selected.length, measurements.length)] answer.1 ∧
        ∀ e, answer.1 = .error e → answer.2 = p) ∧
    (∀ (paths : List (Path ρ α)) (policies : List (Policy ρ α)) (c : Config α) (source : Option σ),
      Compares
        (if c.plays ≤ paths.length then
          policies.map fun p => (paths.length, PathPolicy.available p)
        else [])
        (Simulator.new paths policies c source)) ∧
    (∀ log other : RoundLog α, log.Reachable → other.Reachable →
      MergesShapes log.shape other.shape log (inPlace (fun log => log.merge other) log)) ∧
    ∀ log other : RewardLog α, log.Reachable → other.Reachable →
      MergesShapes log.shape other.shape log (inPlace (fun log => log.merge other) log) := by
  refine ⟨fun a r values => ?_, Lp.Program.compares_new, Lp.compares_resourceProgram, compares_dot,
    Policy.compares_update, Simulator.compares_new, fun _ _ => RoundLog.mergesShapes,
    fun _ _ => RewardLog.mergesShapes⟩
  exact ⟨compares_inPlace (Matrix.compares_setRow a r values), fun e => inPlace_unchanged⟩

/-- Two policies in three rounds against three policies in two rounds: neither kind of log is
merged, and what is reported is twice the number six. -/
theorem lengthMismatch_reported_six :
    let rounds : RoundLog Float := RoundLog.new 2 3 1
    let rewards : RewardLog Float := RewardLog.new 2 3
    inPlace (fun log => log.merge (RoundLog.new 3 2 1)) rounds =
        (.error (.lengthMismatch 6 6), rounds) ∧
      inPlace (fun log => log.merge (RewardLog.new 3 2)) rewards =
        (.error (.lengthMismatch 6 6), rewards) := by
  obtain ⟨-, -, -, -, -, -, hrounds, hrewards⟩ :=
    lengthMismatch_reported (ρ := ChaCha) (σ := Replay Float) (α := Float)
  exact ⟨(hrounds _ _ (.new 2 3 1) (.new 3 2 1)).refuses (by decide),
    (hrewards _ _ (.new 2 3) (.new 3 2)).refuses (by decide)⟩

/-- Logs of different shapes with as many cells are refused for the mismatch of a number with
itself. -/
theorem merge_reports_equal :
    (RoundLog.new 1 2 1 : RoundLog ℝ).merge (RoundLog.new 2 1 1) =
        .error (.lengthMismatch 2 2) ∧
      (RewardLog.new 2 3 : RewardLog ℝ).merge (RewardLog.new 3 2) =
        .error (.lengthMismatch 6 6) :=
  ⟨rfl, rfl⟩

end Reported

end PathSelection
