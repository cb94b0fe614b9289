import PathSelection.Proofs.KlUcb.Visits
import PathSelection.Proofs.Simulator.Repetitions

namespace PathSelection

/-- An event as it happens in a run of one policy only, unless it belongs to another policy. -/
def Event.alone? {α : Type} (i : Nat) : Event α → Option (Event α)
  | .began => some .began
  | .decided policy round mode selection =>
    if policy = i then some (.decided 0 round mode selection) else none
  | .preferred policy round paths =>
    if policy = i then some (.preferred 0 round paths) else none
  | .refreshed policy round status =>
    if policy = i then some (.refreshed 0 round status) else none
  | .measured policy round path metric =>
    if policy = i then some (.measured 0 round path metric) else none
  | .selected policy round path =>
    if policy = i then some (.selected 0 round path) else none
  | .updated policy round mode paths metrics =>
    if policy = i then some (.updated 0 round mode paths metrics) else none
  | .rewarded policy round reward =>
    if policy = i then some (.rewarded 0 round reward) else none

namespace Block

variable {α : Type} [Scalar α]

theorem alone?_events (b : Block α) (mode : RoundMode) (i policy round : Nat) :
    (b.events mode false policy round).filterMap (Event.alone? i) =
      if policy = i then b.events mode false 0 round else [] := by
  unfold events opening closing steering
  simp only [List.mapIdx_eq_zipIdx_map, List.filterMap_cons, List.filterMap_append,
    List.filterMap_map, Function.comp_def, Event.alone?]
  by_cases hpolicy : policy = i
  · simp [hpolicy]
  · simp [hpolicy]

end Block

namespace Simulator

variable {π σ ρ α β τ : Type}

/-- The run with a single one of its policies. -/
def alone (i : Nat) (s : Simulator π σ ρ α) : Simulator π σ ρ α :=
  { s with policies := s.policies[i]?.toList, oracles := [s.oracle i] }

variable {s s₁ s₂ : Simulator π σ ρ α} {i policy : Nat} {p : π}

theorem policies_alone (hi : s.policies[i]? = some p) : (s.alone i).policies = [p] :=
  congrArg Option.toList hi

/-- What another policy has become does not show. -/
theorem alone_withPolicy_of_ne (hne : policy ≠ i) (p' : π) :
    (s.withPolicy policy p').alone i = s.alone i := by
  have hget : (s.policies.set policy p')[i]? = s.policies[i]? := List.getElem?_set_ne hne
  unfold alone withPolicy
  dsimp only
  rw [hget]
  rfl

theorem alone_withPolicy_self (hi : s.policies[i]? = some p) (p' : π) :
    (s.withPolicy i p').alone i = (s.alone i).withPolicy 0 p' := by
  obtain ⟨hlt, -⟩ := List.getElem?_eq_some_iff.mp hi
  have hget : (s.policies.set i p')[i]? = some p' := List.getElem?_set_self hlt
  unfold alone withPolicy
  dsimp only
  rw [hget, hi]
  rfl

theorem withPolicy_withPolicy (s : Simulator π σ ρ α) (policy : Nat) (p₁ p₂ : π) :
    (s.withPolicy policy p₁).withPolicy policy p₂ = s.withPolicy policy p₂ := by
  unfold withPolicy
  dsimp only
  rw [List.set_set]

/-- A run over fixed paths with the given means, without a source. -/
structure Still (means : List (Metric α)) (s : Simulator π σ ρ α) : Prop where
  paths_eq : s.paths = means.map .fixed
  source_eq : s.source = none

variable {means : List (Metric α)}

theorem Still.withPolicy (h : Still means s) (policy : Nat) (p : π) :
    Still means (s.withPolicy policy p) :=
  ⟨h.paths_eq, h.source_eq⟩

theorem Still.alone (h : Still means s) (i : Nat) : Still means (s.alone i) :=
  ⟨h.paths_eq, h.source_eq⟩

section Turn

variable [Scalar α] [RandomSource ρ α] [PathPolicy π α] [MeasurementSource σ α] [Recorder τ α]

theorem measureAll_fixed (sample : Nat → Option (Metric α)) (means : List (Metric α)) :
    Path.measureAll sample (means.map (.fixed : Metric α → Path ρ α)) =
      (means, means.map .fixed) := by
  unfold Path.measureAll
  simp [Function.comp_def, Path.measure]

/-- The turn of a policy over fixed paths: it selects some of them and learns their means. -/
structure Plays (means : List (Metric α)) (mode : RoundMode) (m : Nat) (p : π)
    (selection : Selection α) (p₁ p₂ : π) : Prop where
  decides : mode.decide m p = (.ok selection, p₁)
  lt : ∀ i ∈ selection.paths, i < means.length
  learns : mode.update selection.paths
    (selection.paths.map fun i => means.getD i Metric.zero) p₁ = (.ok (), p₂)

/-- What such a turn brings. -/
def fixedBlock (means : List (Metric α)) (policy : Nat) (selection : Selection α)
    (s : Simulator π σ ρ α) : Block α :=
  ⟨selection, [], means, s.roundReward policy
    (selection.paths.map fun i => means.getD i Metric.zero)⟩

variable {selection : Selection α} {p₁ p₂ : π}

omit [Scalar α] [RandomSource ρ α] [PathPolicy π α] in
theorem Still.steer_eq (h : Still means s) (policy round : Nat) (selected : List Nat) (log : τ) :
    steer policy round selected s log = (.ok true, s, log) := by
  unfold steer
  rw [h.source_eq]

omit [PathPolicy π α] in
theorem Still.measureAll_eq (h : Still means s) :
    Path.measureAll s.sample s.paths = (means, s.paths) := by
  rw [h.paths_eq, measureAll_fixed]

theorem turn_of_plays (h : Still means s) (hp : s.policies[policy]? = some p)
    (hplays : Plays means s.mode s.plays p selection p₁ p₂) (round : Nat) (log : τ) :
    turn policy round s log = (.ok true, s.withPolicy policy p₂, Recorder.recordAll
      ((s.fixedBlock means policy selection).events s.mode false policy round) log) := by
  have hdecided : Still means (s.withPolicy policy p₁) := h.withPolicy policy p₁
  rw [turn_of_steer hp hplays.decides (hdecided.steer_eq policy round selection.paths _),
    if_pos rfl]
  rw [observe_eq hdecided.measureAll_eq hplays.lt hplays.learns [],
    ← withPolicy_withPolicy s policy p₁ p₂]
  rfl

/-- A turn that does not fail is such a turn. -/
theorem plays_of_turn (h : Still means s) (hp : s.policies[policy]? = some p) {round : Nat}
    {log : τ} {goesOn : Bool} (hok : (turn policy round s log).1 = .ok goesOn) :
    ∃ selection p₁ p₂, Plays means s.mode s.plays p selection p₁ p₂ := by
  -- It could fail in the decision, at a selected path that does not exist, or in the feedback.
  obtain ⟨selection, p₁, hdecide, -⟩ := decided_of_turn hp hok
  have hdecided : Still means (s.withPolicy policy p₁) := h.withPolicy policy p₁
  have hsteer := hdecided.steer_eq policy round selection.paths
    (Recorder.record (.decided policy round s.mode selection : Event α) log)
  rw [turn_of_steer hp hdecide hsteer, if_pos rfl] at hok
  obtain ⟨hlt, p₂, hupdate⟩ := update_of_observe hdecided.measureAll_eq hok
  exact ⟨selection, p₁, p₂, hdecide, hlt, hupdate⟩

end Turn

section Lockstep

variable [Recorder τ α]

/-- A part of a run over fixed paths, next to the same part of the run of one policy alone: both
answer the same, and what the second does and leaves is what the first one does with the policy. -/
structure Lockstep (means : List (Metric α)) (i : Nat) (s : Simulator π σ ρ α) (answer : β)
    (events : List (Event α)) (s' : Simulator π σ ρ α)
    (whole single : τ → Except (Error α) β × Simulator π σ ρ α × τ) : Prop where
  still : Still means s'
  same : SameSetting s s'
  whole_eq : ∀ log, whole log = (.ok answer, s', Recorder.recordAll events log)
  single_eq : ∀ log, single log =
    (.ok answer, s'.alone i, Recorder.recordAll (events.filterMap (Event.alone? i)) log)

/-- A part of a run after one with the given events. -/
theorem Lockstep.after {answer : β} {events more : List (Event α)}
    {whole single whole₁ single₁ : τ → Except (Error α) β × Simulator π σ ρ α × τ}
    (h : Lockstep means i s₁ answer more s₂ whole₁ single₁) (hsame : SameSetting s s₁)
    (hwhole : ∀ log, whole log = whole₁ (Recorder.recordAll events log))
    (hsingle : ∀ log, single log =
      single₁ (Recorder.recordAll (events.filterMap (Event.alone? i)) log)) :
    Lockstep means i s answer (events ++ more) s₂ whole single where
  still := h.still
  same := hsame.trans h.same
  whole_eq log := by rw [hwhole, h.whole_eq, Recorder.recordAll_append]
  single_eq log := by rw [hsingle, h.single_eq, List.filterMap_append, Recorder.recordAll_append]

variable [Scalar α] [RandomSource ρ α] [PathPolicy π α] [MeasurementSource σ α]

/-- How many of the turns of the given number of policies from number `policy` on are those of
policy `i`. -/
def ownTurns (i policy count : Nat) : Nat := if policy ≤ i ∧ i < policy + count then 1 else 0

theorem turn_lockstep (h : Still means s) (hpolicy : policy < s.policies.length) (i : Nat)
    {round : Nat} {log : τ} {goesOn : Bool} (hok : (turn policy round s log).1 = .ok goesOn) :
    ∃ events s', Lockstep means i s true events s' (turn policy round s : τ → _)
      (turns round (ownTurns i policy 1) 0 (s.alone i)) := by
  have hp : s.policies[policy]? = some s.policies[policy] := List.getElem?_eq_getElem hpolicy
  obtain ⟨selection, p₁, p₂, hplays⟩ := plays_of_turn h hp hok
  refine ⟨_, s.withPolicy policy p₂, h.withPolicy policy p₂, sameSetting_withPolicy s policy p₂,
    turn_of_plays h hp hplays round, fun log => ?_⟩
  rw [Block.alone?_events]
  unfold ownTurns
  by_cases hi : policy = i
  · subst hi
    have hsingle : turn 0 round (s.alone policy) log = _ := turn_of_plays (h.alone policy)
      (congrArg (·[0]?) (policies_alone hp)) hplays round log
    rw [if_pos ⟨Nat.le_refl policy, Nat.lt_succ_self policy⟩, if_pos rfl, turns, hsingle,
      alone_withPolicy_self hp]
    rfl
  · rw [if_neg (by omega), if_neg hi, alone_withPolicy_of_ne hi]
    rfl

/-- The turns of some policies contain at most one of the policy that is looked at. -/
theorem turns_lockstep (h : Still means s) {count : Nat}
    (hcount : policy + count = s.policies.length) (i : Nat) {round : Nat} {log : τ} {goesOn : Bool}
    (hok : (turns round count policy s log).1 = .ok goesOn) :
    ∃ events s', Lockstep means i s true events s' (turns round count policy s : τ → _)
      (turns round (ownTurns i policy count) 0 (s.alone i)) := by
  -- By induction on the policies still to come. The own run waits during the turns of the others.
  induction count generalizing s policy log with
  | zero =>
    have hnone : ownTurns i policy 0 = 0 := if_neg (by omega)
    rw [hnone]
    exact ⟨[], s, h, .refl s, fun _ => rfl, fun _ => rfl⟩
  | succ count ih =>
    have hturn : ∃ goesOn, (turn policy round s log).1 = .ok goesOn := by
      unfold turns at hok
      split at hok
      · next heq => exact ⟨true, congrArg Prod.fst heq⟩
      · exact ⟨goesOn, hok⟩
    obtain ⟨goesOn₁, hturn⟩ := hturn
    obtain ⟨events₁, s₁, h₁⟩ := turn_lockstep h (show policy < s.policies.length by omega) i hturn
    have hwhole (log : τ) : turns round (count + 1) policy s log =
        turns round count (policy + 1) s₁ (Recorder.recordAll events₁ log) := by
      rw [turns, h₁.whole_eq]
    rw [hwhole] at hok
    obtain ⟨events₂, s₂, h₂⟩ := ih h₁.still
      (show policy + 1 + count = s₁.policies.length by rw [h₁.same.length_policies]; omega) hok
    refine ⟨events₁ ++ events₂, s₂, h₂.after h₁.same hwhole fun log => ?_⟩
    have hfirst := h₁.single_eq log
    by_cases hi : policy = i
    · -- No turn of the policy is left after its own.
      have hone : ownTurns i policy 1 = 1 := if_pos (by omega)
      have hall : ownTurns i policy (count + 1) = 1 := if_pos (by omega)
      have hrest : ownTurns i (policy + 1) count = 0 := if_neg (by omega)
      rw [hone] at hfirst
      rw [hall, hrest, hfirst]
      rfl
    · have hnone : ownTurns i policy 1 = 0 := if_neg (by omega)
      have hall : ownTurns i policy (count + 1) = ownTurns i (policy + 1) count := by
        unfold ownTurns
        congr 1
        apply propext
        omega
      rw [hnone] at hfirst
      obtain ⟨-, hafter⟩ := Prod.mk.inj hfirst
      obtain ⟨hstate, hlog⟩ := Prod.mk.inj hafter
      rw [hall, hstate, ← hlog]

variable (hi : i < s.policies.length)
include hi

theorem rounds_lockstep (h : Still means s) {count round : Nat} {log : τ} {outcome : Outcome}
    (hok : (rounds count round s log).1 = .ok outcome) :
    ∃ events s', Lockstep means i s (.completed (round + count)) events s'
      (rounds count round s : τ → _) (rounds count round (s.alone i)) := by
  induction count generalizing s round log with
  | zero => exact ⟨[], s, h, .refl s, fun _ => rfl, fun _ => rfl⟩
  | succ count ih =>
    have hturns : ∃ goesOn, (turns round s.policies.length 0 s log).1 = .ok goesOn := by
      unfold rounds at hok
      split at hok
      · exact absurd hok (by simp)
      · next heq => exact ⟨false, congrArg Prod.fst heq⟩
      · next heq => exact ⟨true, congrArg Prod.fst heq⟩
    obtain ⟨goesOn, hturns⟩ := hturns
    obtain ⟨events₁, s₁, h₁⟩ := turns_lockstep h (Nat.zero_add _) i hturns
    have hwhole (log : τ) : rounds (count + 1) round s log =
        rounds count (round + 1) s₁ (Recorder.recordAll events₁ log) := by
      rw [rounds, h₁.whole_eq]
    -- A round has one turn of the policy, and so has a round of its own run.
    have hown : ownTurns i 0 s.policies.length = (s.alone i).policies.length := by
      rw [policies_alone (List.getElem?_eq_getElem hi)]
      exact if_pos ⟨Nat.zero_le i, (Nat.zero_add _).symm ▸ hi⟩
    have hsingle (log : τ) : rounds (count + 1) round (s.alone i) log =
        rounds count (round + 1) (s₁.alone i)
          (Recorder.recordAll (events₁.filterMap (Event.alone? i)) log) := by
      rw [rounds, ← hown, h₁.single_eq]
    rw [hwhole] at hok
    obtain ⟨events₂, s₂, h₂⟩ := ih (h₁.same.length_policies.symm ▸ hi) h₁.still hok
    rw [Nat.add_right_comm, Nat.add_assoc] at h₂
    exact ⟨events₁ ++ events₂, s₂, h₂.after h₁.same hwhole hsingle⟩

theorem run_lockstep (h : Still means s) (hforever : s.forever = false) {T : Nat} {log : τ}
    {outcome : Outcome} (hok : (run T s log).1 = .ok outcome) :
    ∃ events s', Lockstep means i s (.completed T) events s' (run T s : τ → _)
      (run T (s.alone i)) := by
  have hrun (s : Simulator π σ ρ α) (hforever : s.forever = false) (log : τ) :
      run T s log = rounds T 0 s (Recorder.record (.began : Event α) log) := by
    unfold run roundCount
    rw [hforever]
    rfl
  rw [hrun s hforever] at hok
  obtain ⟨events, s', h'⟩ := rounds_lockstep hi h hok
  rw [Nat.zero_add] at h'
  exact ⟨[Event.began] ++ events, s',
    h'.after (.refl s) (hrun s hforever) (hrun (s.alone i) hforever)⟩

theorem runRepetitionsFrom_lockstep (h : Still means s) (hforever : s.forever = false)
    {last outcome : Outcome} {R T : Nat} {log : τ}
    (hok : (runRepetitionsFrom last T R s log).1 = .ok outcome) :
    ∃ answer events s', Lockstep means i s answer events s'
      (runRepetitionsFrom last T R s : τ → _) (runRepetitionsFrom last T R (s.alone i)) := by
  induction R generalizing s last log with
  | zero => exact ⟨last, [], s, h, .refl s, fun _ => rfl, fun _ => rfl⟩
  | succ R ih =>
    have hrun : ∃ outcome, (run T s log).1 = .ok outcome := by
      unfold runRepetitionsFrom at hok
      split at hok
      · next n _ _ heq => exact ⟨.completed n, congrArg Prod.fst heq⟩
      · exact ⟨outcome, hok⟩
    obtain ⟨outcome₁, hrun⟩ := hrun
    obtain ⟨events₁, s₁, h₁⟩ := run_lockstep hi h hforever hrun
    have hwhole (log : τ) : runRepetitionsFrom last T (R + 1) s log =
        runRepetitionsFrom (.completed T) T R s₁ (Recorder.recordAll events₁ log) := by
      rw [runRepetitionsFrom, h₁.whole_eq]
    have hsingle (log : τ) : runRepetitionsFrom last T (R + 1) (s.alone i) log =
        runRepetitionsFrom (.completed T) T R (s₁.alone i)
          (Recorder.recordAll (events₁.filterMap (Event.alone? i)) log) := by
      rw [runRepetitionsFrom, h₁.single_eq]
    rw [hwhole] at hok
    obtain ⟨answer, events₂, s₂, h₂⟩ := ih (h₁.same.length_policies.symm ▸ hi) h₁.still
      (h₁.same.forever_eq.trans hforever) hok
    exact ⟨answer, events₁ ++ events₂, s₂, h₂.after h₁.same hwhole hsingle⟩

end Lockstep

section Whole

variable [Scalar α] [RandomSource ρ α] [PathPolicy π α] [MeasurementSource σ α]

omit [RandomSource ρ α] [MeasurementSource σ α] in
theorem new_alone {paths : List (Path ρ α)} {policies : List π} {c : Config α}
    (hnew : new paths policies c (none : Option σ) = .ok s) (hp : policies[i]? = some p) :
    new paths [p] c (none : Option σ) = .ok (s.alone i) := by
  unfold new at hnew ⊢
  dsimp only at hnew ⊢
  split at hnew
  · exact absurd hnew (by simp)
  · split at hnew
    · exact absurd hnew (by simp)
    · next hall =>
      have havailable := List.find?_eq_none.mp hall p (List.mem_of_getElem? hp)
      have hone : ([p].find? fun p => PathPolicy.available p != paths.length) = none :=
        List.find?_eq_none.mpr (List.forall_mem_singleton.mpr havailable)
      obtain rfl := Except.ok.inj hnew
      rw [hone]
      unfold alone oracle
      dsimp only
      rw [List.getElem?_map, hp]
      rfl

/-- A run without an end needs a source. -/
theorem runRepetitions_of_forever [Recorder τ α] (hforever : s.forever = true)
    (hsource : s.source = none) (R T : Nat) (log : τ) :
    s.runRepetitions R T log = (if R = 0 then .ok (.completed 0)
      else .error (.invalidParameter "forever" (.text "forever mode needs a measurement source")),
      s, log) := by
  unfold runRepetitions
  cases R with
  | zero => rfl
  | succ R =>
    unfold runRepetitionsFrom run
    rw [hforever, hsource]
    rfl

/-- Policies that share a run over fixed paths do not influence one another. If nothing fails in the
run, then a run of one of them alone has the same outcome, its events are those of the whole run
that concern the policy, and its final state is the same. -/
theorem runRepetitions_alone {policies : List π} {c : Config α}
    (hnew : new (means.map .fixed) policies c (none : Option σ) = .ok s)
    (hp : policies[i]? = some p) (R T : Nat)
    (hok : c.forever = false →
      ∃ outcome, (s.runRepetitions R T (⟨[]⟩ : History α)).1 = .ok outcome) :
    ∃ single : Simulator π σ ρ α, new (means.map .fixed) [p] c none = .ok single ∧
      let whole := s.runRepetitions R T (⟨[]⟩ : History α)
      let own := single.runRepetitions R T (⟨[]⟩ : History α)
      own.1 = whole.1 ∧ own.2.2.toList = whole.2.2.toList.filterMap (Event.alone? i) ∧
        ∃ p', own.2.1.policies = [p'] ∧ whole.2.1.policies[i]? = some p' := by
  refine ⟨s.alone i, new_alone hnew hp, ?_⟩
  obtain ⟨hpaths, hpolicies, -, -, hforever, -, hsource⟩ := new_eq_ok hnew
  have hpi : s.policies[i]? = some p := hpolicies ▸ hp
  cases hend : c.forever with
  | true =>
    rw [hend] at hforever
    dsimp only
    rw [runRepetitions_of_forever hforever hsource,
      runRepetitions_of_forever (s := s.alone i) hforever hsource]
    exact ⟨rfl, rfl, p, policies_alone hpi, hpi⟩
  | false =>
    obtain ⟨hi, -⟩ := List.getElem?_eq_some_iff.mp hpi
    obtain ⟨outcome, hok⟩ := hok hend
    obtain ⟨answer, events, s', h⟩ :=
      runRepetitionsFrom_lockstep hi ⟨hpaths, hsource⟩ (hforever.trans hend) hok
    have hi' : i < s'.policies.length := h.same.length_policies.symm ▸ hi
    unfold runRepetitions
    dsimp only
    rw [h.whole_eq, h.single_eq]
    refine ⟨rfl, ?_, s'.policies[i], ?_, List.getElem?_eq_getElem hi'⟩
    · rw [History.toList_recordAll, History.toList_recordAll]
      rfl
    · exact policies_alone (List.getElem?_eq_getElem hi')

/-- Three repetitions of two rounds of KL-UCB in both modes: the one with a leader does what it does
alone. -/
theorem runRepetitions_alone_leader :
    let c : Config Float := { Config.standard with plays := 1 }
    let means : List (Metric Float) := [⟨0, 1, 0⟩, ⟨0.5, 0.25, 0⟩]
    ∃ s single : Simulator (KlUcb Float) (Replay Float) ChaCha Float,
      new (means.map .fixed) [KlUcb.new 2 false, KlUcb.new 2 true] c none = .ok s ∧
      new (means.map .fixed) [KlUcb.new 2 true] c none = .ok single ∧
      (∃ outcome, (s.runRepetitions 3 2 (⟨[]⟩ : History Float)).1 = .ok outcome) ∧
      (single.runRepetitions 3 2 (⟨[]⟩ : History Float)).2.2.toList =
        (s.runRepetitions 3 2 (⟨[]⟩ : History Float)).2.2.toList.filterMap (Event.alone? 1) := by
  intro c means
  obtain ⟨s, hnew⟩ : ∃ s : Simulator (KlUcb Float) (Replay Float) ChaCha Float,
      new (means.map .fixed) [KlUcb.new 2 false, KlUcb.new 2 true] c none = .ok s := ⟨_, rfl⟩
  have hvalid : ∀ p ∈ ([KlUcb.new 2 false, KlUcb.new 2 true] : List (KlUcb Float)),
      p.tallies.length = 2 := by
    simp [KlUcb.length_new]
  have hsafe := safe_new hnew (KlUcb.reliable .vanilla (show 1 ≤ 2 by decide)) hvalid
    Replay.responsive (by simp)
  obtain ⟨-, -, -, -, hforever, -⟩ := new_eq_ok hnew
  obtain ⟨_, s', _, _, _, hrun⟩ := runRepetitionsFrom_eq hsafe hforever (.completed 0) 3 2
    (⟨[]⟩ : History Float)
  have hok : ∃ outcome, (s.runRepetitions 3 2 (⟨[]⟩ : History Float)).1 = .ok outcome :=
    ⟨_, congrArg Prod.fst hrun⟩
  obtain ⟨single, hsingle, -, hevents, -⟩ :=
    runRepetitions_alone (i := 1) hnew rfl 3 2 fun _ => hok
  exact ⟨s, single, hnew, hsingle, hok, hevents⟩

end Whole

end Simulator

end PathSelection
