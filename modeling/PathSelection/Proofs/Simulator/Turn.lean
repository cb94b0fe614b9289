import Mathlib.Data.List.GetD
import PathSelection.Proofs.Policy
import PathSelection.Proofs.Simulator.Events
import PathSelection.Proofs.Source.Requests

namespace PathSelection

/-- What one turn brings: the selection, the answers of the source, a measurement of each path, and
the value of the round. -/
structure Block (α : Type) where
  selection : Selection α
  feeds : List FeedStatus
  metrics : List (Metric α)
  reward : RoundReward α

namespace Block

variable {α : Type}

/-- The events of a turn that come from the source. -/
def steering (live : Bool) (policy round : Nat) (selected : List Nat) (feeds : List FeedStatus) :
    List (Event α) :=
  if live then
    .preferred policy round selected :: feeds.map fun status => .refreshed policy round status
  else []

/-- The events of a turn before anything is measured. -/
def opening (mode : RoundMode) (live : Bool) (policy round : Nat) (selection : Selection α)
    (feeds : List FeedStatus) : List (Event α) :=
  .decided policy round mode selection :: steering live policy round selection.paths feeds

variable [Scalar α]

/-- The measurements of the selected paths, in the order of the selection. -/
def chosen (b : Block α) : List (Metric α) :=
  b.selection.paths.map fun i => b.metrics.getD i Metric.zero

/-- The events of a turn from the first measurement on. -/
def closing (mode : RoundMode) (policy round : Nat) (b : Block α) : List (Event α) :=
  (b.metrics.mapIdx fun i metric => .measured policy round i metric) ++
    ((b.selection.paths.map fun i => .selected policy round i) ++
      [.updated policy round mode b.selection.paths b.chosen, .rewarded policy round b.reward])

/-- The events of a turn. -/
def events (mode : RoundMode) (live : Bool) (policy round : Nat) (b : Block α) :
    List (Event α) :=
  opening mode live policy round b.selection b.feeds ++ closing mode policy round b

end Block

namespace Simulator

section Source

variable {σ α τ : Type} {active : σ → Prop} [MeasurementSource σ α] [Recorder τ α]

theorem awaitSnapshot_awaits (hsource : Responsive active) (forever : Bool)
    (policy round attempts : Nat) {source : σ} (hactive : active source) (log : τ) :
    ∃ feeds source', Awaits attempts source feeds source' ∧ active source' ∧
      awaitSnapshot forever policy round attempts source log =
        (.ok !(forever && feeds.contains .exhausted), source',
          Recorder.recordAll
            (feeds.map fun status => (.refreshed policy round status : Event α)) log) := by
  -- Only a stale answer leads to another request.
  induction attempts generalizing source log with
  | zero =>
    refine ⟨[], source, .gaveUp source, hactive, ?_⟩
    rw [List.contains_nil, Bool.and_false]
    rfl
  | succ attempts ih =>
    obtain ⟨status, source₁, hrefresh, hactive₁⟩ := hsource.refreshes source hactive
    unfold awaitSnapshot
    rw [hrefresh]
    cases status with
    | fresh =>
      refine ⟨[.fresh], source₁, .answered hrefresh (by decide), hactive₁, ?_⟩
      cases forever <;> rfl
    | exhausted =>
      refine ⟨[.exhausted], source₁, .answered hrefresh (by decide), hactive₁, ?_⟩
      cases forever <;> rfl
    | stale =>
      obtain ⟨feeds, source₂, hawaits, hactive₂, heq⟩ := ih hactive₁
        (Recorder.record (.refreshed policy round .stale : Event α) log)
      exact ⟨.stale :: feeds, source₂, .stale hrefresh hawaits, hactive₂, heq⟩

end Source

section Record

variable {α τ : Type} [Recorder τ α]

theorem recordMeasurements_eq (policy round path : Nat) (metrics : List (Metric α)) (log : τ) :
    recordMeasurements policy round path metrics log =
      Recorder.recordAll
        (metrics.mapIdx fun i metric => .measured policy round (path + i) metric) log := by
  induction metrics generalizing path log with
  | nil => rfl
  | cons metric metrics ih =>
    rw [List.mapIdx_cons, Recorder.recordAll_cons]
    unfold recordMeasurements
    rw [ih]
    simp only [Nat.add_assoc, Nat.add_comm 1]
    rfl

theorem recordSelection_eq [Scalar α] (policy round : Nat) {metrics : List (Metric α)}
    {selected : List Nat} (hlt : ∀ i ∈ selected, i < metrics.length) (log : τ) :
    recordSelection policy round metrics selected log =
      (.ok (selected.map fun i => metrics.getD i Metric.zero),
        Recorder.recordAll (selected.map fun i => (.selected policy round i : Event α)) log) := by
  induction selected generalizing log with
  | nil => rfl
  | cons path selected ih =>
    have hpath : path < metrics.length := hlt path List.mem_cons_self
    have hrest := ih (fun i hi => hlt i (List.mem_cons_of_mem path hi))
      (Recorder.record (.selected policy round path : Event α) log)
    unfold recordSelection
    rw [List.getElem?_eq_getElem hpath]
    dsimp only
    rw [hrest, List.map_cons, List.map_cons, List.getD_eq_getElem _ _ hpath]
    rfl

/-- A selection that was recorded to its end has no path that does not exist. -/
theorem lt_of_recordSelection {policy round : Nat} {metrics chosen : List (Metric α)}
    {selected : List Nat} {log log' : τ}
    (h : recordSelection policy round metrics selected log = (.ok chosen, log')) :
    ∀ i ∈ selected, i < metrics.length := by
  induction selected generalizing chosen log log' with
  | nil => exact fun i hi => absurd hi List.not_mem_nil
  | cons path selected ih =>
    unfold recordSelection at h
    split at h
    · exact absurd h (by simp)
    · next metric hmetric =>
      obtain ⟨hpath, -⟩ := List.getElem?_eq_some_iff.mp hmetric
      dsimp only at h
      split at h
      · exact absurd h (by simp)
      · next rest log₁ hrest =>
        exact List.forall_mem_cons.mpr ⟨hpath, ih hrest⟩

end Record

section Turn

variable {π σ ρ α τ : Type} {valid : π → Prop} {active : σ → Prop} {s : Simulator π σ ρ α}

/-- A run whose policies and source are in such states, with at least one request for a snapshot in
each turn, as every run has that `Simulator.new` makes. -/
structure Ready (valid : π → Prop) (active : σ → Prop) (s : Simulator π σ ρ α) : Prop where
  attempts_pos : 0 < s.refreshAttempts
  policies_valid : ∀ p ∈ s.policies, valid p
  source_active : ∀ source, s.source = some source → active source

theorem Ready.withPolicy (h : Ready valid active s) (policy : Nat) {p : π} (hp : valid p) :
    Ready valid active (s.withPolicy policy p) := by
  refine ⟨h.attempts_pos, fun q hq => ?_, h.source_active⟩
  rcases List.mem_or_eq_of_mem_set hq with hq | rfl
  · exact h.policies_valid q hq
  · exact hp

variable [Scalar α] [RandomSource ρ α] [PathPolicy π α] [MeasurementSource σ α] [Recorder τ α]

theorem steps_awaits {attempts : Nat} {source source' : σ} {feeds : List FeedStatus}
    (h : Awaits attempts source feeds source') (s : Simulator π σ ρ α) (policy round : Nat) :
    Steps { s with source := some source }
      (feeds.map fun status => .refreshed policy round status)
      { s with source := some source' } := by
  induction h with
  | gaveUp source => exact .nil _
  | stale hrefresh _ ih => exact .cons (.refreshed policy round rfl hrefresh) ih
  | answered hrefresh _ => exact (Step.refreshed policy round rfl hrefresh).steps

theorem steer_steered (hsource : Responsive active) (hready : Ready valid active s)
    (policy round : Nat) (selected : List Nat) (log : τ) :
    ∃ feeds source', Steered s.refreshAttempts selected s.source feeds source' ∧
      Ready valid active { s with source := source' } ∧
      Steps s (Block.steering s.source.isSome policy round selected feeds)
        { s with source := source' } ∧
      steer policy round selected s log =
        (.ok !(s.forever && feeds.contains .exhausted), { s with source := source' },
          Recorder.recordAll
            (Block.steering s.source.isSome policy round selected feeds : List (Event α)) log) := by
  unfold steer
  cases hsome : s.source with
  | none =>
    have hsame : { s with source := none } = s := by rw [← hsome]
    refine ⟨[], none, .offline, ?_⟩
    rw [hsame, List.contains_nil, Bool.and_false]
    exact ⟨hready, .nil s, rfl⟩
  | some source =>
    obtain ⟨source₁, hprefer, hactive₁⟩ :=
      hsource.prefers selected source (hready.source_active source hsome)
    obtain ⟨feeds, source₂, hawaits, hactive₂, heq⟩ := awaitSnapshot_awaits hsource s.forever
      policy round s.refreshAttempts hactive₁
      (Recorder.record (.preferred policy round selected : Event α) log)
    refine ⟨feeds, some source₂, .live hprefer hawaits, ⟨hready.attempts_pos,
      hready.policies_valid, ?_⟩, ?_, ?_⟩
    · rintro _ ⟨⟩
      exact hactive₂
    · exact .cons (.preferred policy round hsome hprefer) (steps_awaits hawaits s policy round)
    · dsimp only
      rw [hprefer]
      dsimp only
      rw [heq]
      rfl

/-- All paths are measured in order, and each only once. -/
theorem steps_measureAll (s : Simulator π σ ρ α) (policy round : Nat)
    (measured paths : List (Path ρ α)) :
    Steps { s with paths := measured ++ paths }
      ((Path.measureAll s.sample paths).1.mapIdx
        fun i metric => .measured policy round (measured.length + i) metric)
      { s with paths := measured ++ (Path.measureAll s.sample paths).2 } := by
  -- By induction on the paths that are not measured yet; those before them keep their places.
  induction paths generalizing measured with
  | nil => exact .nil _
  | cons q paths ih =>
    let value := (q.measure s.sample).1
    let q' := (q.measure s.sample).2
    have hq : (measured ++ q :: paths)[measured.length]? = some q := by simp
    have hset : (measured ++ q :: paths).set measured.length q' = measured ++ [q'] ++ paths := by
      simp
    have hstep : Step { s with paths := measured ++ q :: paths }
        (.measured policy round measured.length value)
        { s with paths := measured ++ [q'] ++ paths } :=
      hset ▸ Step.measured (s := { s with paths := measured ++ q :: paths }) policy round hq
    have hrest := ih (measured ++ [q'])
    have hevents : (Path.measureAll s.sample (q :: paths)).1.mapIdx
        (fun i metric => (.measured policy round (measured.length + i) metric : Event α)) =
        .measured policy round measured.length value ::
          (Path.measureAll s.sample paths).1.mapIdx
            fun i metric => .measured policy round ((measured ++ [q']).length + i) metric := by
      simp only [Path.measureAll, List.map_cons, List.mapIdx_cons, List.length_append,
        List.length_singleton, Nat.add_assoc, Nat.add_comm 1]
      rfl
    have hafter : measured ++ (Path.measureAll s.sample (q :: paths)).2 =
        measured ++ [q'] ++ (Path.measureAll s.sample paths).2 := by
      simp only [Path.measureAll, List.map_cons, List.append_assoc, List.singleton_append]
      rfl
    rw [hevents, hafter]
    exact .cons hstep hrest

theorem steps_selected (s : Simulator π σ ρ α) (policy round : Nat) (selected : List Nat) :
    Steps s (selected.map fun i => .selected policy round i) s := by
  induction selected with
  | nil => exact .nil s
  | cons path selected ih => exact .cons (.selected s policy round path) ih

/-- What a turn makes of a run that goes on after it. -/
structure Turned (policy round : Nat) (s : Simulator π σ ρ α) (b : Block α)
    (s' : Simulator π σ ρ α) : Prop where
  selects : Selects s.plays s.paths.length b.selection.paths
  steered : Steered s.refreshAttempts b.selection.paths s.source b.feeds s'.source
  goes_on : s.forever = true → .exhausted ∉ b.feeds
  measured : Path.measureAll s'.sample s.paths = (b.metrics, s'.paths)
  reward_eq : b.reward = s.roundReward policy b.chosen
  steps : Steps s (b.events s.mode s.source.isSome policy round) s'

/-- What a turn makes of a run that ends in it. -/
structure Stopped (policy round : Nat) (s : Simulator π σ ρ α) (selection : Selection α)
    (feeds : List FeedStatus) (s' : Simulator π σ ρ α) : Prop where
  selects : Selects s.plays s.paths.length selection.paths
  steered : Steered s.refreshAttempts selection.paths s.source feeds s'.source
  forever : s.forever = true
  exhausted : .exhausted ∈ feeds
  steps : Steps s (Block.opening s.mode s.source.isSome policy round selection feeds) s'

/-- Feedback that does not fail is recorded whole. -/
theorem observe_eq {policy : Nat} {p p' : π} {selection : Selection α} {metrics : List (Metric α)}
    {paths : List (Path ρ α)} (hmeasure : Path.measureAll s.sample s.paths = (metrics, paths))
    (hlt : ∀ i ∈ selection.paths, i < metrics.length)
    (hupdate : s.mode.update selection.paths
      (selection.paths.map fun i => metrics.getD i Metric.zero) p = (.ok (), p'))
    (feeds : List FeedStatus) (round : Nat) (log : τ) :
    let b : Block α := ⟨selection, feeds, metrics,
      s.roundReward policy (selection.paths.map fun i => metrics.getD i Metric.zero)⟩
    observe policy round p selection.paths s log =
      (.ok true, { s with paths := paths }.withPolicy policy p',
        Recorder.recordAll (b.closing s.mode policy round) log) := by
  unfold observe
  rw [hmeasure]
  dsimp only
  rw [recordMeasurements_eq, recordSelection_eq policy round hlt]
  dsimp only
  rw [hupdate]
  simp only [Block.closing, Recorder.recordAll_append, Nat.zero_add]
  rfl

/-- Feedback fails at a selected path that does not exist, or if the policy does not learn it. -/
theorem update_of_observe {policy round : Nat} {p : π} {selected : List Nat}
    {metrics : List (Metric α)} {paths : List (Path ρ α)} {goesOn : Bool} {log : τ}
    (hmeasure : Path.measureAll s.sample s.paths = (metrics, paths))
    (hok : (observe policy round p selected s log).1 = .ok goesOn) :
    (∀ i ∈ selected, i < metrics.length) ∧ ∃ p',
      s.mode.update selected (selected.map fun i => metrics.getD i Metric.zero) p =
        (.ok (), p') := by
  unfold observe at hok
  rw [hmeasure] at hok
  dsimp only at hok
  split at hok
  · exact absurd hok (by simp)
  · next chosen log₁ hselection =>
    have hlt := lt_of_recordSelection hselection
    rw [recordSelection_eq policy round hlt] at hselection
    obtain rfl := Except.ok.inj (Prod.mk.inj hselection).1
    split at hok
    · exact absurd hok (by simp)
    · next p' hupdate => exact ⟨hlt, p', hupdate⟩

theorem observe_closing {p : π} (hpolicies : Reliable s.mode s.plays s.paths.length valid)
    (hready : Ready valid active s) {policy : Nat} (hpolicy : s.policies[policy]? = some p)
    (round : Nat) {selection : Selection α}
    (hselects : Selects s.plays s.paths.length selection.paths) (feeds : List FeedStatus)
    (log : τ) :
    ∃ (b : Block α) (s' : Simulator π σ ρ α), b.selection = selection ∧ b.feeds = feeds ∧
      s'.source = s.source ∧ Path.measureAll s.sample s.paths = (b.metrics, s'.paths) ∧
      b.reward = s.roundReward policy b.chosen ∧
      Steps s (b.closing s.mode policy round) s' ∧ Ready valid active s' ∧
      observe policy round p selection.paths s log =
        (.ok true, s', Recorder.recordAll (b.closing s.mode policy round) log) := by
  cases hmeasure : Path.measureAll s.sample s.paths with
  | mk metrics paths =>
    have hlength : metrics.length = s.paths.length := by
      have hfst := congrArg (fun m => m.1.length) hmeasure
      simpa [Path.measureAll] using hfst.symm
    have hlt : ∀ i ∈ selection.paths, i < metrics.length := fun i hi =>
      hlength ▸ hselects.lt i hi
    let chosen := selection.paths.map fun i => metrics.getD i Metric.zero
    let b : Block α := ⟨selection, feeds, metrics, s.roundReward policy chosen⟩
    let measured : Simulator π σ ρ α := { s with paths := paths }
    obtain ⟨p', hupdate, hvalid⟩ := hpolicies.learns p selection.paths chosen
      (hready.policies_valid p (List.mem_of_getElem? hpolicy)) (List.length_map _).symm hselects.lt
    refine ⟨b, measured.withPolicy policy p', rfl, rfl, rfl, rfl, rfl, ?_, ?_, ?_⟩
    · have hmeasured := steps_measureAll s policy round [] s.paths
      rw [hmeasure] at hmeasured
      simp only [List.nil_append, List.length_nil, Nat.zero_add] at hmeasured
      apply hmeasured.append
      apply (steps_selected measured policy round selection.paths).append
      exact .cons (.updated round hpolicy hupdate) (Step.rewarded _ policy round chosen).steps
    · exact Ready.withPolicy (s := measured)
        ⟨hready.attempts_pos, hready.policies_valid, hready.source_active⟩ policy hvalid
    · exact observe_eq hmeasure hlt hupdate feeds round log

theorem turn_of_steer {policy round : Nat} {p p' : π} {selection : Selection α} {goesOn : Bool}
    {s₁ : Simulator π σ ρ α} {log log₁ : τ} (hpolicy : s.policies[policy]? = some p)
    (hdecide : s.mode.decide s.plays p = (.ok selection, p'))
    (hsteer : steer policy round selection.paths (s.withPolicy policy p')
      (Recorder.record (.decided policy round s.mode selection) log) = (.ok goesOn, s₁, log₁)) :
    turn policy round s log =
      if goesOn then observe policy round p' selection.paths s₁ log₁
      else (.ok false, s₁, log₁) := by
  unfold turn
  rw [hpolicy]
  dsimp only
  rw [hdecide]
  dsimp only
  rw [show (s.withPolicy policy p').mode = s.mode from rfl, hsteer]
  cases goesOn <;> rfl

/-- A turn that does not fail has a decision, and a source that did not fail either. -/
theorem decided_of_turn {policy round : Nat} {p : π} {goesOn : Bool} {log : τ}
    (hpolicy : s.policies[policy]? = some p) (hok : (turn policy round s log).1 = .ok goesOn) :
    ∃ selection p', s.mode.decide s.plays p = (.ok selection, p') ∧ ∃ goesOn₁,
      (steer policy round selection.paths (s.withPolicy policy p')
        (Recorder.record (.decided policy round s.mode selection) log)).1 = .ok goesOn₁ := by
  unfold turn at hok
  rw [hpolicy] at hok
  dsimp only at hok
  split at hok
  · exact absurd hok (by simp)
  · next selection p' hdecide =>
    split at hok
    · next hsteer => exact ⟨selection, p', hdecide, true, congrArg Prod.fst hsteer⟩
    · exact ⟨selection, p', hdecide, goesOn, hok⟩

/-- A turn of a run that is ready either goes on, or it stops at the end of the source. -/
theorem turn_cases (hpolicies : Reliable s.mode s.plays s.paths.length valid)
    (hsource : Responsive active) (hready : Ready valid active s) {policy : Nat}
    (hpolicy : policy < s.policies.length) (round : Nat) (log : τ) :
    (∃ (b : Block α) (s' : Simulator π σ ρ α), Turned policy round s b s' ∧ Ready valid active s' ∧
      turn policy round s log = (.ok true, s',
        Recorder.recordAll (b.events s.mode s.source.isSome policy round) log)) ∨
    ∃ selection feeds, ∃ s' : Simulator π σ ρ α, Stopped policy round s selection feeds s' ∧
      turn policy round s log = (.ok false, s', Recorder.recordAll
        (Block.opening s.mode s.source.isSome policy round selection feeds) log) := by
  have hp : s.policies[policy]? = some s.policies[policy] := List.getElem?_eq_getElem hpolicy
  obtain ⟨selection, p', hdecide, hselects, hvalid⟩ := hpolicies.decides s.policies[policy]
    (hready.policies_valid _ (List.getElem_mem hpolicy))
  have hdecided := Step.decided round hp hdecide
  have hpolicy' : (s.withPolicy policy p').policies[policy]? = some p' :=
    List.getElem?_set_self hpolicy
  obtain ⟨feeds, source', hsteered, hready', hsteps, hsteer⟩ := steer_steered hsource
    (hready.withPolicy policy hvalid) policy round selection.paths
    (Recorder.record (.decided policy round s.mode selection) log)
  let steered : Simulator π σ ρ α := { s.withPolicy policy p' with source := source' }
  rw [turn_of_steer hp hdecide hsteer]
  by_cases hstops : (s.forever && feeds.contains .exhausted) = true
  · right
    obtain ⟨hforever, hexhausted⟩ : s.forever = true ∧ .exhausted ∈ feeds := by simpa using hstops
    refine ⟨selection, feeds, steered,
      ⟨hselects, hsteered, hforever, hexhausted, .cons hdecided hsteps⟩, if_neg ?_⟩
    rw [show (s.withPolicy policy p').forever = s.forever from rfl, hstops]
    decide
  · left
    have hanswer : (!(s.forever && feeds.contains .exhausted)) = true := by
      rw [Bool.eq_false_iff.mpr hstops]
      rfl
    obtain ⟨b, s', rfl, rfl, hkept, hmeasured, hreward, hclosing, hready'', hobserve⟩ :=
      observe_closing (s := steered) hpolicies hready' hpolicy' round hselects feeds
        (Recorder.recordAll (Block.opening s.mode s.source.isSome policy round selection feeds) log)
    refine ⟨b, s', ⟨hselects, ?_, ?_, ?_, hreward, ?_⟩, hready'', ?_⟩
    · rw [hkept]
      exact hsteered
    · exact fun hforever hexhausted => hstops (by simpa using And.intro hforever hexhausted)
    · have hsample : s'.sample = steered.sample := by
        unfold Simulator.sample
        rw [hkept]
      rw [hsample]
      exact hmeasured
    · exact .cons hdecided (hsteps.append hclosing)
    · rw [Block.events, Recorder.recordAll_append]
      exact (if_pos hanswer).trans hobserve

end Turn

end Simulator

end PathSelection
