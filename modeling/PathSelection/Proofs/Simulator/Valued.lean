import PathSelection.Proofs.Simulator.Alone

namespace PathSelection

/-- Whether a policy decides. -/
def Event.isDecision {α : Type} : Event α → Bool
  | .decided .. => true
  | _ => false

section Events

variable {α : Type} {i : Nat} {value : List Nat → RoundReward α} {events more : List (Event α)}

/-- Each value of a policy's round is that of the paths in the last decision before it, which is the
decision of the policy in the round. -/
def ValuedBy (i : Nat) (value : List Nat → RoundReward α) (events : List (Event α)) : Prop :=
  ∀ (n round : Nat) (reward : RoundReward α), events[n]? = some (.rewarded i round reward) →
    ∃ mode selection, ((events.take n).filter Event.isDecision).getLast? =
      some (.decided i round mode selection) ∧ reward = value selection.paths

theorem ValuedBy.append (h : ValuedBy i value events) (hmore : ValuedBy i value more) :
    ValuedBy i value (events ++ more) := by
  intro n round reward hn
  by_cases hlt : n < events.length
  · rw [List.getElem?_append_left hlt] at hn
    rw [List.take_append_of_le_length (Nat.le_of_lt hlt)]
    exact h n round reward hn
  · have hle : events.length ≤ n := Nat.le_of_not_lt hlt
    rw [List.getElem?_append_right hle] at hn
    obtain ⟨mode, selection, hlast, hreward⟩ := hmore _ round reward hn
    refine ⟨mode, selection, ?_, hreward⟩
    rw [List.take_append, List.take_of_length_le hle, List.filter_append, List.getLast?_append,
      hlast]
    rfl

theorem valuedBy_of_not_mem (h : ∀ round reward, .rewarded i round reward ∉ events) :
    ValuedBy i value events :=
  fun _ round reward hn => absurd (List.mem_of_getElem? hn) (h round reward)

/-- The events of a turn end with the value of its selection. -/
theorem Block.valuedBy_events [Scalar α] (b : Block α) (mode : RoundMode) {policy : Nat}
    (round : Nat) (hreward : policy = i → b.reward = value b.selection.paths) :
    ValuedBy i value (b.events mode false policy round) := by
  let middle : List (Event α) :=
    (b.metrics.mapIdx fun j metric => .measured policy round j metric) ++
      ((b.selection.paths.map fun j => .selected policy round j) ++
        [.updated policy round mode b.selection.paths b.chosen])
  let front : List (Event α) := .decided policy round mode b.selection :: middle
  have hevents : b.events mode false policy round = front ++ [.rewarded policy round b.reward] := by
    simp [front, middle, events, opening, closing, steering]
  have hmiddle : ∀ e ∈ middle, e.isDecision = false ∧ ∀ t r, e ≠ .rewarded i t r := by
    intro e he
    simp only [middle, List.mem_append, List.mem_mapIdx, List.mem_map, List.mem_singleton] at he
    rcases he with ⟨j, hj, rfl⟩ | ⟨j, hj, rfl⟩ | rfl <;>
      exact ⟨rfl, fun t r h => by cases h⟩
  rw [hevents]
  intro n t reward hn
  by_cases hlt : n < front.length
  · -- Nothing is valued before the last event.
    rw [List.getElem?_append_left hlt] at hn
    rcases List.mem_cons.mp (List.mem_of_getElem? hn) with heq | hmem
    · cases heq
    · exact absurd rfl ((hmiddle _ hmem).2 t reward)
  · rw [List.getElem?_append_right (Nat.le_of_not_lt hlt), List.getElem?_singleton] at hn
    split at hn
    · next hlast =>
      obtain ⟨rfl, rfl, rfl⟩ := Event.rewarded.inj (Option.some.inj hn)
      have hn : n = front.length := by omega
      have hnone : middle.filter Event.isDecision = [] :=
        List.filter_eq_nil_iff.mpr fun e he => Bool.eq_false_iff.mp (hmiddle e he).1
      refine ⟨mode, b.selection, ?_, hreward rfl⟩
      rw [hn, List.take_left, List.filter_cons_of_pos rfl, hnone]
      rfl
    · exact absurd hn (by simp)

end Events

namespace Simulator

variable {π σ ρ α β γ τ : Type} {means : List (Metric α)} {i policy round : Nat}
variable {s s₁ s₂ : Simulator π σ ρ α} {log log₁ : τ}

section Records

variable [Scalar α] [Recorder τ α]

/-- The value of a policy's round in which some of the fixed paths are selected. -/
def fixedReward (means : List (Metric α)) (i : Nat) (s : Simulator π σ ρ α) (paths : List Nat) :
    RoundReward α :=
  s.roundReward i (paths.map fun k => means.getD k Metric.zero)

theorem SameSetting.fixedReward_eq (h : SameSetting s s₁) (means : List (Metric α)) (i : Nat) :
    s₁.fixedReward means i = s.fixedReward means i := by
  funext paths
  unfold fixedReward roundReward oracle
  rw [h.oracles_eq, h.threshold_eq]

/-- What a part of a run over fixed paths leaves, whatever it answers: the run goes on over the same
paths, and the events that were recorded value a policy by its decisions. -/
structure Records (means : List (Metric α)) (i : Nat) (s : Simulator π σ ρ α) (log : τ)
    (result : β × Simulator π σ ρ α × τ) : Prop where
  still : Still means result.2.1
  same : SameSetting s result.2.1
  records : ∃ events, ValuedBy i (s.fixedReward means i) events ∧
    result.2.2 = Recorder.recordAll events log

/-- Nothing was recorded. -/
theorem Records.silent (h : Still means s₁) (hsame : SameSetting s s₁) (log : τ) (answer : β) :
    Records means i s log (answer, s₁, log) :=
  ⟨h, hsame, [], valuedBy_of_not_mem fun _ _ => List.not_mem_nil, rfl⟩

/-- One event was recorded, which values nothing. -/
theorem Records.single (h : Still means s₁) (hsame : SameSetting s s₁) {e : Event α}
    (he : ∀ round reward, e ≠ .rewarded i round reward) (log : τ) (answer : β) :
    Records means i s log (answer, s₁, Recorder.record e log) := by
  refine ⟨h, hsame, [e], valuedBy_of_not_mem fun round reward hmem => ?_, rfl⟩
  exact he round reward (List.mem_singleton.mp hmem).symm

theorem Records.trans {answer : β} {result : γ × Simulator π σ ρ α × τ}
    (h : Records means i s log (answer, s₁, log₁)) (h₁ : Records means i s₁ log₁ result) :
    Records means i s log result := by
  obtain ⟨events, hvalued, hlog⟩ := h.records
  obtain ⟨more, hmore, hresult⟩ := h₁.records
  rw [h.same.fixedReward_eq] at hmore
  refine ⟨h₁.still, h.same.trans h₁.same, events ++ more, hvalued.append hmore, ?_⟩
  rw [hresult, Recorder.recordAll_append]
  exact congrArg _ hlog

/-- What is left does not depend on the answer. -/
theorem Records.answer {answer : β} (h : Records means i s log (answer, s₁, log₁)) (other : γ) :
    Records means i s log (other, s₁, log₁) := ⟨h.still, h.same, h.records⟩

end Records

section Loops

variable [Scalar α] [RandomSource ρ α] [PathPolicy π α] [MeasurementSource σ α] [Recorder τ α]

omit [Scalar α] in
theorem exists_recordSelection (policy round : Nat) (metrics : List (Metric α))
    (selected : List Nat) (log : τ) :
    ∃ taken : List Nat, (recordSelection policy round metrics selected log).2 =
      Recorder.recordAll (taken.map fun k => (.selected policy round k : Event α)) log := by
  induction selected generalizing log with
  | nil => exact ⟨[], rfl⟩
  | cons path selected ih =>
    unfold recordSelection
    split
    · exact ⟨[], rfl⟩
    · obtain ⟨taken, htaken⟩ := ih (Recorder.record (.selected policy round path : Event α) log)
      refine ⟨path :: taken, ?_⟩
      dsimp only
      split
      · next heq =>
        rw [heq] at htaken
        exact htaken
      · next heq =>
        rw [heq] at htaken
        exact htaken

/-- Where the feedback fails, nothing is valued. -/
theorem records_observe_of_error (h : Still means s) {p : π} {selected : List Nat} {e : Error α}
    (hfail : (observe policy round p selected s log).1 = .error e) :
    Records means i s log (observe policy round p selected s log) := by
  let measured : List (Event α) :=
    means.mapIdx fun k metric => .measured policy round (0 + k) metric
  obtain ⟨taken, htaken⟩ := exists_recordSelection policy round means selected
    (Recorder.recordAll measured log)
  rw [← Recorder.recordAll_append] at htaken
  have hnone : ValuedBy i (s.fixedReward means i)
      (measured ++ taken.map fun k => (.selected policy round k : Event α)) := by
    apply valuedBy_of_not_mem
    intro t r hmem
    simp [measured, List.mem_mapIdx] at hmem
  unfold observe at hfail ⊢
  rw [h.measureAll_eq] at hfail ⊢
  dsimp only at hfail ⊢
  rw [recordMeasurements_eq] at hfail ⊢
  cases hselection : recordSelection policy round means selected (Recorder.recordAll measured log)
    with
  | mk answer log₂ =>
    rw [hselection] at hfail htaken
    cases answer with
    | error e => exact ⟨h, .refl s, _, hnone, htaken⟩
    | ok chosen =>
      dsimp only at hfail ⊢
      cases hupdate : s.mode.update selected chosen p with
      | mk answer p₂ =>
        rw [hupdate] at hfail
        cases answer with
        | error e =>
          exact ⟨h.withPolicy policy p₂, sameSetting_withPolicy s policy p₂, _, hnone, htaken⟩
        | ok => exact absurd hfail (by simp)

/-- A turn that fails has no value. -/
theorem records_turn_of_error (h : Still means s) {p : π} (hp : s.policies[policy]? = some p)
    {e : Error α} (hfail : (turn policy round s log).1 = .error e) :
    Records means i s log (turn policy round s log) := by
  unfold turn at hfail ⊢
  rw [hp] at hfail ⊢
  dsimp only at hfail ⊢
  cases hdecide : s.mode.decide s.plays p with
  | mk answer p₁ =>
    rw [hdecide] at hfail
    have hstill : Still means (s.withPolicy policy p₁) := h.withPolicy policy p₁
    have hsame := sameSetting_withPolicy s policy p₁
    cases answer with
    | error e => exact .silent hstill hsame log _
    | ok selection =>
      dsimp only at hfail ⊢
      rw [hstill.steer_eq] at hfail ⊢
      have hdecided : Records means i s log (selection, s.withPolicy policy p₁,
          Recorder.record (.decided policy round s.mode selection : Event α) log) :=
        .single hstill hsame (fun t r h => by cases h) log selection
      exact hdecided.trans (records_observe_of_error hstill hfail)

theorem records_turn (h : Still means s) (policy round : Nat) (log : τ) :
    Records means i s log (turn policy round s log) := by
  cases hp : s.policies[policy]? with
  | none =>
    unfold turn
    rw [hp]
    exact .silent h (.refl s) log _
  | some p =>
    cases hanswer : (turn policy round s log).1 with
    | error e => exact records_turn_of_error h hp hanswer
    | ok goesOn =>
      obtain ⟨selection, p₁, p₂, hplays⟩ := plays_of_turn h hp hanswer
      rw [turn_of_plays h hp hplays round log]
      refine ⟨h.withPolicy policy p₂, sameSetting_withPolicy s policy p₂, _, ?_, rfl⟩
      apply Block.valuedBy_events
      rintro rfl
      rfl

theorem records_turns (h : Still means s) (round count policy : Nat) (log : τ) :
    Records means i s log (turns round count policy s log) := by
  -- By induction on the policies still to come. The first turn that stops the run or fails is the
  -- last one, so that its records are those of all turns.
  induction count generalizing s policy log with
  | zero => exact .silent h (.refl s) log _
  | succ count ih =>
    have hturn : Records means i s log (turn policy round s log) := records_turn h policy round log
    unfold turns
    split
    · next s₁ log₁ heq =>
      rw [heq] at hturn
      exact hturn.trans (ih hturn.still (policy + 1) log₁)
    · exact hturn

theorem records_rounds (h : Still means s) (count round : Nat) (log : τ) :
    Records means i s log (rounds count round s log) := by
  induction count generalizing s round log with
  | zero => exact .silent h (.refl s) log _
  | succ count ih =>
    have hturns : Records means i s log (turns round s.policies.length 0 s log) :=
      records_turns h round s.policies.length 0 log
    unfold rounds
    split
    · next heq => exact (heq ▸ hturns).answer _
    · next heq => exact (heq ▸ hturns).answer _
    · next s₁ log₁ heq =>
      rw [heq] at hturns
      exact hturns.trans (ih hturns.still (round + 1) log₁)

theorem records_run (h : Still means s) (requested : Nat) (log : τ) :
    Records means i s log (run requested s log) := by
  unfold run
  split
  · exact .silent h (.refl s) log _
  · have hbegan : Records means i s log (requested, s, Recorder.record (.began : Event α) log) :=
      .single h (.refl s) (fun t r h => by cases h) log requested
    exact hbegan.trans (records_rounds h _ 0 _)

theorem records_runRepetitionsFrom (h : Still means s) (last : Outcome) (requested count : Nat)
    (log : τ) : Records means i s log (runRepetitionsFrom last requested count s log) := by
  induction count generalizing s last log with
  | zero => exact .silent h (.refl s) log _
  | succ count ih =>
    have hrun : Records means i s log (run requested s log) := records_run h requested log
    unfold runRepetitionsFrom
    split
    · next n s₁ log₁ heq =>
      rw [heq] at hrun
      exact hrun.trans (ih hrun.still (.completed n) log₁)
    · exact hrun

end Loops

end Simulator

end PathSelection
