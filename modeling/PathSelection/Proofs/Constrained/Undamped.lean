import PathSelection.Proofs.Binary64.Counting
import PathSelection.Proofs.Constrained.Learning

namespace PathSelection

/-- The call with a plain update in the place of a damped one. -/
def Call.plain {α : Type} : Call α → Call α
  | .update .damped selected measurements => .update .vanilla selected measurements
  | call => call

namespace Constrained

section Posteriors

variable {arm : BetaArm Float} {b : Belief Float}

/-- A posterior of which nothing was ever forgotten. -/
def CountedArm (arm : BetaArm Float) : Prop := Counted arm.alpha ∧ Counted arm.beta

def CountedBelief (b : Belief Float) : Prop := CountedArm b.bandwidth ∧ CountedArm b.cost

theorem countedBelief_initial : CountedBelief Belief.initial :=
  ⟨⟨counted_one, counted_one⟩, ⟨counted_one, counted_one⟩⟩

theorem CountedArm.observe (h : CountedArm arm) (success : Bool) :
    CountedArm (arm.observe success) := by
  cases success with
  | true => exact ⟨h.1.add_one, h.2⟩
  | false => exact ⟨h.1, h.2.add_one⟩

theorem CountedArm.observeDamped_eq (h : CountedArm arm) (success : Bool) :
    arm.observeDamped 1 success = arm.observe success := by
  unfold BetaArm.observeDamped BetaArm.observe
  rw [h.1.add_one.max_one_mul, h.2.add_one.max_one_mul]

theorem CountedBelief.forget_eq (h : CountedBelief b) : Belief.forget 1 b = b := by
  obtain ⟨⟨hgain, hloss⟩, hgain', hloss'⟩ := h
  unfold Belief.forget BetaArm.forget
  rw [hgain.max_one_mul, hloss.max_one_mul, hgain'.max_one_mul, hloss'.max_one_mul]

/-- Trials that keep all evidence are plain ones. -/
theorem CountedBelief.foldl_observe (h : CountedBelief b) (trials : List (Bool × Bool)) :
    trials.foldl (Belief.observe (BetaArm.observeDamped 1)) b =
        trials.foldl (Belief.observe BetaArm.observe) b ∧
      CountedBelief (trials.foldl (Belief.observe BetaArm.observe) b) := by
  -- The rules agree only on counted posteriors, so that the trials have to keep them counted.
  induction trials generalizing b with
  | nil => exact ⟨rfl, h⟩
  | cons trial trials ih =>
    have hsame : Belief.observe (BetaArm.observeDamped 1) b trial =
        Belief.observe BetaArm.observe b trial := by
      unfold Belief.observe
      rw [h.1.observeDamped_eq, h.2.observeDamped_eq]
    rw [List.foldl_cons, List.foldl_cons, hsame]
    exact ih ⟨h.1.observe trial.1, h.2.observe trial.2⟩

theorem countedBelief_revises {resource : Resource} {mode : RoundMode}
    {metrics : List (Metric Float)} {after : Belief Float} (h : CountedBelief b)
    (hrevises : Revises resource 1 mode metrics b after) : CountedBelief after := by
  cases hrevises with
  | vanilla trials => exact (h.foldl_observe trials).2
  | damped trials =>
    rw [(h.foldl_observe trials).1]
    exact (h.foldl_observe trials).2
  | forgets =>
    rw [h.forget_eq]
    exact h
  | averaged =>
    obtain ⟨hbandwidth, hcost⟩ := foldl_average_arms resource metrics b
    exact ⟨hbandwidth ▸ h.1, hcost ▸ h.2⟩

end Posteriors

section Calls

variable {ρ : Type} [RandomSource ρ Float] {p q : Constrained ρ Float}

/-- A damped update is a plain one where nothing was and nothing is forgotten. -/
theorem updateDamped_eq_update (hmemory : 1 - q.damping = 1)
    (hcounted : ∀ (path : ℕ) b, q.beliefs[path]? = some b → CountedBelief b) (selected : List ℕ)
    (measurements : List (Metric Float)) :
    q.updateDamped selected measurements = q.update selected measurements := by
  have hbeliefs : forgetOthers 1 selected (learn q.resource (BetaArm.observeDamped 1)
      (selected.zip measurements) q.beliefs q.rng).1 =
        (learn q.resource BetaArm.observe (selected.zip measurements) q.beliefs q.rng).1 := by
    apply List.ext_getElem?
    intro path
    obtain ⟨trials, -, hlearn⟩ := exists_trials q.resource (selected.zip measurements) q.rng path
    rw [getElem?_forgetOthers, hlearn, hlearn]
    cases hb : q.beliefs[path]? with
    | none => rfl
    | some b =>
      obtain ⟨hsame, hafter⟩ := (hcounted path b hb).foldl_observe trials
      rw [Option.map_some, Option.map_some, Option.map_some, hsame, hafter.forget_eq, ite_self]
  unfold Constrained.updateDamped Constrained.update
  rw [hmemory]
  dsimp only
  rw [hbeliefs, learn_snd q.resource (BetaArm.observeDamped 1) BetaArm.observe
    (selected.zip measurements) q.beliefs q.beliefs q.rng]

variable {engine : Lp.Engine Float} {resource : Resource} {paths : ℕ} {threshold damping : Float}
  {rng : ρ}

theorem countedBelief_callAll (hdamping : (damping == 0) = true)
    (hnew : Constrained.new engine resource paths threshold damping rng = .ok p)
    (calls : List (Call Float)) {path : ℕ} {b : Belief Float}
    (hb : (callAll calls p).2.beliefs[path]? = some b) : CountedBelief b := by
  refine belief_induction (P := fun _ b => CountedBelief b) countedBelief_initial ?_ hnew calls hb
  intro _ lesson before after hbefore hrevises
  rw [one_sub_zero hdamping] at hrevises
  exact countedBelief_revises hbefore hrevises

theorem damped_eq_plain (hdamping : (damping == 0) = true)
    (hnew : Constrained.new engine resource paths threshold damping rng = .ok p)
    (calls : List (Call Float)) (selected : List ℕ) (measurements : List (Metric Float)) :
    (callAll calls p).2.updateDamped selected measurements =
      (callAll calls p).2.update selected measurements := by
  apply updateDamped_eq_update
  · obtain ⟨beliefs, rng', hkept⟩ := callAll_snd calls p
    obtain ⟨-, -, rfl⟩ := new_eq_ok_iff.mp hnew
    rw [hkept]
    exact one_sub_zero hdamping
  · intro path b hb
    exact countedBelief_callAll hdamping hnew calls hb

/-- With plain updates only, calls have the same answers and lead to the same state. -/
theorem callAll_plain (hdamping : (damping == 0) = true)
    (hnew : Constrained.new engine resource paths threshold damping rng = .ok p)
    (calls : List (Call Float)) : callAll (calls.map Call.plain) p = callAll calls p := by
  induction calls using List.reverseRecOn with
  | nil => rfl
  | append_singleton calls call ih =>
    have hcall : call.plain.apply (callAll calls p).2 = call.apply (callAll calls p).2 := by
      cases call with
      | decide => rfl
      | update mode selected measurements =>
        cases mode with
        | vanilla | averaged => rfl
        | damped =>
          have hsame := damped_eq_plain hdamping hnew calls selected measurements
          exact congrArg (fun answer => (Reply.feedback answer.1, answer.2)) hsame.symm
    rw [List.map_append, List.map_singleton, callAll_concat, callAll_concat, ih, hcall]

/-- When the rate of forgetting is zero, a damped update gives the same answer and the same state as
a plain one after any calls, whatever was measured and also if it is refused. So calls that differ
in the kind of some of these updates have the same answers and lead to the same state. -/
theorem damped_is_plain (hdamping : (damping == 0) = true)
    (hnew : Constrained.new engine resource paths threshold damping rng = .ok p) :
    (∀ calls selected measurements,
      (callAll calls p).2.updateDamped selected measurements =
        (callAll calls p).2.update selected measurements) ∧
      ∀ calls others : List (Call Float), calls.map Call.plain = others.map Call.plain →
        callAll calls p = callAll others p := by
  refine ⟨damped_eq_plain hdamping hnew, fun calls others hsame => ?_⟩
  rw [← callAll_plain hdamping hnew calls, hsame, callAll_plain hdamping hnew others]

/-- At the rate negative zero, with a path that is measured twice in one update, a measurement that
is no number, and an update that is refused. -/
theorem damped_is_plain_zero :
    let calls : List (Call Float) :=
      [.update .damped [0, 0] [⟨0.1, 0.5, 0⟩, ⟨0.2, 0 / 0, 0⟩], .decide .vanilla 1,
        .update .vanilla [2] [⟨0, 1, 0⟩], .update .damped [1] [⟨0.4, 1, 0⟩], .decide .damped 2]
    let others : List (Call Float) :=
      [.update .vanilla [0, 0] [⟨0.1, 0.5, 0⟩, ⟨0.2, 0 / 0, 0⟩], .decide .vanilla 1,
        .update .damped [2] [⟨0, 1, 0⟩], .update .damped [1] [⟨0.4, 1, 0⟩], .decide .damped 2]
    ((-0 : Float) == 0) = true ∧
      ∃ p, Constrained.new engineless .latency 2 0 (-0) (ChaCha.ofSeed 1) = .ok p ∧
        callAll calls p = callAll others p ∧
        (callAll calls p).2.updateDamped [1] [⟨0.3, 0.7, 0⟩] =
          (callAll calls p).2.update [1] [⟨0.3, 0.7, 0⟩] := by
  intro calls others
  have hzero : ((-0 : Float) == 0) = true := by decide
  have hdamping : (0 : Float) ≤ -0 ∧ (-0 : Float) < 1 := by decide
  obtain ⟨p, hnew, -⟩ := exists_new (by decide) hdamping .latency 2 (ChaCha.ofSeed 1)
  obtain ⟨hupdate, hcalls⟩ := damped_is_plain hzero hnew
  exact ⟨hzero, p, hnew, hcalls calls others rfl, hupdate calls _ _⟩

end Calls

end Constrained

end PathSelection
