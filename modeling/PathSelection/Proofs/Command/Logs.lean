import PathSelection.Command.Run
import PathSelection.Proofs.Log.Answers
import PathSelection.Proofs.Simulator.Finished
import PathSelection.Proofs.Validation

namespace PathSelection

namespace Command

section Finished

variable {ρ α : Type} [Scalar α]

/-- What the logs of a run over `k` paths hold. They have taken in the same events, and these are
the repetitions that were asked for, in each of which each policy has its turn in each round; a turn
measures all paths and is valued once. -/
structure Covers (c : Config α) (k : Nat) (events : List (Event α)) (logs : Logs α) : Prop where
  names_eq : logs.names = c.policies.map PolicyKind.logName
  rounds_eq :
    logs.rounds = Recorder.recordAll events (RoundLog.new c.policies.length c.rounds k)
  rewards_eq :
    logs.rewards = Recorder.recordAll events (RewardLog.new c.policies.length c.rounds)
  blocks : ∃ (live : Bool) (repetitions : List (List (Block α))),
    events = Block.repetitionEvents c.mode live c.policies.length repetitions ∧
    repetitions.length = c.repetitions ∧
    ∀ blocks ∈ repetitions, blocks.length = c.rounds * c.policies.length ∧
      ∀ b ∈ blocks, b.metrics.length = k
  begun : 0 < c.repetitions ∧ events.countP Event.isBeginning = c.repetitions
  measured : ∀ policy < c.policies.length, ∀ round < c.rounds, ∀ path < k,
    events.countP (Event.isMeasurement policy round path) = c.repetitions
  rewarded : ∀ policy < c.policies.length, ∀ round < c.rounds,
    events.countP (Event.isReward policy round) = c.repetitions
  repetitions_eq : logs.rounds.repetitions = c.repetitions ∧
    logs.rewards.repetitions = c.repetitions

theorem Covers.enabled {c : Config α} {k : Nat} {events : List (Event α)} {logs : Logs α}
    (h : Covers c k events logs) : logs.rounds.enabled = true := by
  rw [h.rounds_eq]
  exact (RoundLog.counts_recordAll (RoundLog.full_new _ _ _) events).1.enabled_eq

variable [RandomSource ρ α] {engine : Lp.Engine α} {generator : UInt64 → ρ}
variable {seeds : SeedSequence} {c : Config α} {given : Supply ρ α}

end Finished

section Texts

variable {c : Config Float} {k : Nat} {events : List (Event Float)} {logs : Logs Float}

/-- What is written about a run over `k` paths. Both texts name the number of repetitions and all
policies, and have a row for each round. A row of the first one tells how often each policy selected
each path and what it measured there, and one of the second one what each policy got up to the
round. -/
structure Describes (c : Config Float) (k : Nat) (events : List (Event Float))
    (rounds rewards : String) : Prop where
  rounds_table : IsTable
    (headerLines "# result in: " " simulations." "# policy " ["selection", "rtt", "bw", "lossrate"]
      (c.policies.map PolicyKind.logName) c.repetitions) c.rounds
    (fun t => IsRow c.policies.length k
      (fun s p i => Event.quantity c.repetitions events s p t i) t) rounds
  rewards_table : IsTable
    (headerLines "#averaged result over " " simulations." "#policy "
      ["oracle", "reward", "regret", "violation"]
      (c.policies.map PolicyKind.logName) c.repetitions) c.rounds
    (fun t => IsRow c.policies.length 1
      (fun s p _ => (Event.cumulative c.repetitions events p t).quantity s) t) rewards

theorem newline_not_mem_logName (kind : PolicyKind) : '\n' ∉ kind.logName.toList := by
  cases kind with
  | constrained resource => cases resource <;> decide
  | _ => decide

theorem Covers.newline_not_mem (h : Covers c k events logs) :
    ∀ name ∈ logs.names, '\n' ∉ name.toList := by
  rw [h.names_eq]
  exact List.forall_mem_map.mpr fun kind _ => newline_not_mem_logName kind

/-- Each policy has a name, so that none is left out of the rows. -/
theorem Covers.min_length_names (h : Covers c k events logs) :
    Nat.min logs.names.length c.policies.length = c.policies.length := by
  rw [h.names_eq, List.length_map]
  exact Nat.min_self _

theorem Covers.rounds_table (h : Covers c k events logs) :
    IsTable (headerLines "# result in: " " simulations." "# policy "
        ["selection", "rtt", "bw", "lossrate"] (c.policies.map PolicyKind.logName) c.repetitions)
      c.rounds (fun t => IsRow c.policies.length k
        (fun s p i => Event.quantity c.repetitions events s p t i) t)
      (logs.rounds.render logs.names) := by
  obtain ⟨hshape, -, -⟩ := RoundLog.counts_recordAll
    (RoundLog.full_new c.policies.length c.rounds k) events
  -- The text speaks of what the log has counted, which is what the configuration asks for.
  have htable := RoundLog.isTable_render h.enabled h.newline_not_mem
  rw [← h.rounds_eq] at hshape
  have hpolicies : logs.rounds.policies = c.policies.length := hshape.policies_eq
  have hrounds : logs.rounds.rounds = c.rounds := hshape.rounds_eq
  have hpaths : logs.rounds.paths = k := hshape.paths_eq
  rw [RoundLog.header_eq, h.repetitions_eq.1, hpolicies, hrounds, hpaths, h.min_length_names,
    h.names_eq] at htable
  rw [h.names_eq]
  refine htable.mono fun t ht fields hrow => hrow.congr fun s p hp i hi => ?_
  rw [h.rounds_eq]
  exact RoundLog.quantity_recordAll hp ht hi h.begun.1 h.begun.2 s

theorem Covers.rewards_table (h : Covers c k events logs) :
    IsTable (headerLines "#averaged result over " " simulations." "#policy "
        ["oracle", "reward", "regret", "violation"] (c.policies.map PolicyKind.logName)
        c.repetitions)
      c.rounds (fun t => IsRow c.policies.length 1
        (fun s p _ => (Event.cumulative c.repetitions events p t).quantity s) t)
      (logs.rewards.render logs.names) := by
  obtain ⟨hshape, hshape', -⟩ := RewardLog.repetitions_recordAll events
    (RewardLog.new c.policies.length c.rounds)
  have htable := logs.rewards.isTable_render h.newline_not_mem
  rw [← h.rewards_eq] at hshape hshape'
  have hpolicies : logs.rewards.policies = c.policies.length := hshape
  have hrounds : logs.rewards.rounds = c.rounds := hshape'
  rw [RewardLog.header_eq, h.repetitions_eq.2, hpolicies, hrounds, h.min_length_names,
    h.names_eq] at htable
  rw [h.names_eq]
  refine htable.mono fun t ht fields hrow => hrow.congr fun s p hp i hi => ?_
  rw [h.rewards_eq, RewardLog.cumulative_recordAll hp ht h.begun.2]

theorem Covers.describes (h : Covers c k events logs) :
    Describes c k events (logs.rounds.render logs.names) (logs.rewards.render logs.names) :=
  ⟨h.rounds_table, h.rewards_table⟩

end Texts

end Command

end PathSelection
