import PathSelection.Policy.Any
import PathSelection.Proofs.Log.Growth
import PathSelection.Proofs.Random.Sources
import PathSelection.Proofs.Ranking.Sums
import PathSelection.Proofs.Simulator.Valued

namespace PathSelection

/-- All policies but the constrained ones take the best bandwidth as the best value of a round. -/
theorem Policy.oracle_eq {ρ α : Type} [Scalar α] [RandomSource ρ α] {p : Policy ρ α}
    (hp : ∀ q, p ≠ .constrained q) : PathPolicy.oracle p = bestBandwidth := by
  cases p with
  | constrained q => exact absurd rfl (hp q)
  | _ => rfl

/-- The bandwidth of a set of paths. -/
noncomputable def bandwidthOf (means : List (Metric ℝ)) (S : Finset ℕ) : ℝ :=
  ∑ k ∈ S, (means.getD k Metric.zero).bandwidth

/-- What a round is worth for a selection: its bandwidth, and what it falls short of the best one,
which is nothing only if it attains that. -/
structure Appraisal (means : List (Metric ℝ)) (best : ℝ) (paths : List ℕ)
    (reward : RoundReward ℝ) : Prop where
  oracle_eq : reward.oracle = best
  reward_eq : reward.reward = bandwidthOf means paths.toFinset
  regret_nonneg : 0 ≤ reward.regret
  regret_eq_zero_iff : reward.regret = 0 ↔ bandwidthOf means paths.toFinset = best

variable {means : List (Metric ℝ)} {m : ℕ} {best : ℝ}

/-- The best bandwidth is that of the best set of so many paths. -/
theorem isGreatest_bestBandwidth (hm : m ≤ means.length) :
    ∃ best, bestBandwidth means m = some best ∧
      IsGreatest {value | ∃ S ⊆ Finset.range means.length, S.card = m ∧
        bandwidthOf means S = value} best := by
  let bandwidths := means.map Metric.bandwidth
  have hentry (k : ℕ) : bandwidths.getD k 0 = (means.getD k Metric.zero).bandwidth := by
    rw [← List.getD_map means Metric.zero Metric.bandwidth]
    exact congrArg (bandwidths.getD k) Scalar.zero_real.symm
  have hlength : bandwidths.length = means.length := List.length_map _
  have hm' : m ≤ bandwidths.length := hlength.symm ▸ hm
  have hgreatest := isGreatest_sum_topIndices hm'
  simp only [hentry, hlength] at hgreatest
  refine ⟨_, ?_, hgreatest⟩
  unfold bestBandwidth
  rw [if_neg (Nat.not_lt.mpr hm)]
  dsimp only
  rw [Scalar.sum_real, Scalar.zero_real]
  simp only [← hentry]
  rfl

section Reliable

variable {ρ α : Type} [Scalar α] [RandomSource ρ α]

/-- KL-UCB can be relied on as one of the policies of any kind, too. -/
theorem Policy.reliable_klUcb (mode : RoundMode) {m k : ℕ} (hm : m ≤ k) :
    Reliable mode m k fun p : Policy ρ α =>
      ∃ q : KlUcb α, p = .klUcb q ∧ q.tallies.length = k where
  decides := by
    rintro _ ⟨q, rfl, hq⟩
    obtain ⟨selection, q', hdecide, hselects, hq'⟩ := (KlUcb.reliable mode hm).decides q hq
    refine ⟨selection, .klUcb q', ?_, hselects, q', rfl, hq'⟩
    have hlift : mode.decide m (.klUcb q : Policy ρ α) = lift .klUcb (mode.decide m q) := by
      cases mode <;> rfl
    rw [hlift, hdecide]
    rfl
  learns := by
    rintro _ selected metrics ⟨q, rfl, hq⟩ hlength hlt
    obtain ⟨q', hupdate, hq'⟩ := (KlUcb.reliable mode hm).learns q selected metrics hq hlength hlt
    refine ⟨.klUcb q', ?_, q', rfl, hq'⟩
    have hlift : mode.update selected metrics (.klUcb q : Policy ρ α) =
        lift .klUcb (mode.update selected metrics q) := by
      cases mode <;> rfl
    rw [hlift, hupdate]
    rfl

theorem Block.selects_of_mem_runEvents {mode mode' : RoundMode} {live : Bool}
    {P first m k policy round : ℕ} {blocks : List (Block α)} {selection : Selection α}
    (hcomplete : ∀ b ∈ blocks, b.Complete m k live)
    (hmem : .decided policy round mode' selection ∈ runEvents mode live P first blocks) :
    Selects m k selection.paths := by
  induction blocks generalizing first with
  | nil => exact absurd hmem List.not_mem_nil
  | cons b blocks ih =>
    rcases List.mem_append.mp hmem with hmem | hmem
    · have hselection : selection = b.selection := by
        cases live <;>
          simp [events, opening, closing, steering, List.mem_mapIdx] at hmem <;>
          exact hmem.2.2.2
      exact hselection ▸ (hcomplete b List.mem_cons_self).selects
    · exact ih (fun b' hb' => hcomplete b' (List.mem_cons_of_mem b hb')) hmem

variable {π σ υ : Type} {valid : π → Prop} {active : σ → Prop}
variable [PathPolicy π α] [MeasurementSource σ α] [Recorder υ α] {s : Simulator π σ ρ α}

/-- Policies that can be relied on select so many different paths in each decision of a run. -/
theorem Simulator.selects_of_decided (h : Safe valid active s) (hforever : s.forever = false)
    (R T : ℕ) (log : υ) {policy round : ℕ} {mode : RoundMode} {selection : Selection α}
    (hmem : .decided policy round mode selection ∈
      (s.runRepetitions R T ((⟨[]⟩ : History α), log)).2.2.1.toList) :
    Selects s.plays s.paths.length selection.paths := by
  obtain ⟨repetitions, s', -, hcomplete, -, hrun⟩ :=
    runRepetitionsFrom_eq h hforever (.completed 0) R T ((⟨[]⟩ : History α), log)
  unfold runRepetitions at hmem
  rw [hrun, Recorder.recordAll_pair, History.toList_recordAll] at hmem
  obtain ⟨blocks, hblocks, hmem⟩ := List.mem_flatMap.mp hmem
  have hmem := (List.mem_cons.mp hmem).resolve_left nofun
  exact Block.selects_of_mem_runEvents (hcomplete blocks hblocks).2 hmem

end Reliable

namespace Simulator

variable {π σ ρ α : Type} {i : ℕ} {p : π}

theorem oracle_of_new [Scalar α] [PathPolicy π α] {paths : List (Path ρ α)} {policies : List π}
    {c : Config α} {source : Option σ} {s : Simulator π σ ρ α}
    (hnew : new paths policies c source = .ok s) (hp : policies[i]? = some p) :
    c.plays ≤ paths.length ∧
      s.oracle i = PathPolicy.oracle p (paths.map Path.mean) c.plays := by
  unfold new checkPlays at hnew
  dsimp only at hnew
  split at hnew
  · exact absurd hnew (by simp)
  · next hplays =>
    split at hnew
    · exact absurd hnew (by simp)
    · obtain rfl := Except.ok.inj hnew
      split at hplays
      · exact absurd hplays (by simp)
      · next hle =>
        refine ⟨Nat.le_of_not_lt hle, ?_⟩
        unfold oracle
        dsimp only
        rw [List.getElem?_map, hp]
        rfl

/-- The value of a selection when the best value is known. -/
theorem appraisal_fixedReward {s : Simulator π σ ρ ℝ} (hbest : s.oracle i = some best)
    (hgreatest : IsGreatest {value | ∃ S ⊆ Finset.range means.length, S.card = m ∧
      bandwidthOf means S = value} best) {paths : List ℕ}
    (hselects : Selects m means.length paths) :
    Appraisal means best paths (s.fixedReward means i paths) := by
  have hmember : bandwidthOf means paths.toFinset ≤ best := by
    refine hgreatest.2 ⟨paths.toFinset, fun k hk => ?_, ?_, rfl⟩
    · exact Finset.mem_range.mpr (hselects.lt k (List.mem_toFinset.mp hk))
    · rw [List.toFinset_card_of_nodup hselects.nodup, hselects.length_eq]
  have hreward : Scalar.sum ((paths.map fun k => means.getD k Metric.zero).map Metric.bandwidth) =
      bandwidthOf means paths.toFinset := by
    unfold bandwidthOf
    rw [Scalar.sum_real, List.map_map, List.sum_toFinset _ hselects.nodup]
    rfl
  unfold fixedReward roundReward
  rw [hbest, hreward]
  refine ⟨rfl, rfl, sub_nonneg.mpr hmember, ?_⟩
  dsimp only
  rw [sub_eq_zero, eq_comm]

variable [RandomSource ρ ℝ] [PathPolicy π ℝ] [MeasurementSource σ ℝ]

/-- A run over fixed paths, without a source, for a policy that knows no better value than the best
bandwidth and that selects as many different paths as it is asked for. Its best value is the largest
sum of bandwidths of so many paths. In each round that is valued it has no negative regret, and none
if and only if its selection attains that sum. The regret up to a round never decreases. -/
theorem runRepetitions_regret {policies : List π} {c : Config ℝ} {s : Simulator π σ ρ ℝ}
    (hnew : new (means.map .fixed) policies c (none : Option σ) = .ok s)
    (hp : policies[i]? = some p) (hplain : PathPolicy.oracle p = bestBandwidth)
    (R T policyCount roundCount : ℕ)
    (hselects : ∀ round mode selection, .decided i round mode selection ∈ (s.runRepetitions R T
        ((⟨[]⟩ : History ℝ), (RewardLog.new policyCount roundCount : RewardLog ℝ))).2.2.1.toList →
      Selects c.plays means.length selection.paths) :
    let run := s.runRepetitions R T
      ((⟨[]⟩ : History ℝ), (RewardLog.new policyCount roundCount : RewardLog ℝ))
    let events := run.2.2.1.toList
    ∃ best, s.oracle i = some best ∧
      IsGreatest {value | ∃ S ⊆ Finset.range means.length, S.card = c.plays ∧
        bandwidthOf means S = value} best ∧
      (∀ (n round : ℕ) (reward : RoundReward ℝ), events[n]? = some (.rewarded i round reward) →
        ∃ mode selection,
          ((events.take n).filter Event.isDecision).getLast? =
            some (.decided i round mode selection) ∧
          Appraisal means best selection.paths reward) ∧
      ∀ round,
        (run.2.2.2.cumulative i round).regret ≤ (run.2.2.2.cumulative i (round + 1)).regret := by
  intro run events
  obtain ⟨hpaths, -, -, -, -, -, hsource⟩ := new_eq_ok hnew
  obtain ⟨hle, horacle⟩ := oracle_of_new hnew hp
  have hmeans : (means.map (.fixed : Metric ℝ → Path ρ ℝ)).map Path.mean = means := by
    simp [Function.comp_def, Path.mean]
  rw [List.length_map] at hle
  obtain ⟨best, hbest, hgreatest⟩ := isGreatest_bestBandwidth hle
  rw [hmeans, hplain, hbest] at horacle
  -- Both records take in the same events, and these value the policy by its decisions.
  have hrecords : Records means i s _ run := records_runRepetitionsFrom ⟨hpaths, hsource⟩ _ T R
    ((⟨[]⟩ : History ℝ), (RewardLog.new policyCount roundCount : RewardLog ℝ))
  obtain ⟨recorded, hvalued, hlog⟩ := hrecords.records
  rw [Recorder.recordAll_pair] at hlog
  have hevents : events = recorded := by
    change run.2.2.1.toList = recorded
    rw [hlog, History.toList_recordAll]
    rfl
  rw [← hevents] at hvalued hlog
  have hround : ∀ (n round : ℕ) (reward : RoundReward ℝ),
      events[n]? = some (.rewarded i round reward) → ∃ mode selection,
        ((events.take n).filter Event.isDecision).getLast? =
          some (.decided i round mode selection) ∧
        Appraisal means best selection.paths reward := by
    intro n round reward hn
    obtain ⟨mode, selection, hlast, rfl⟩ := hvalued n round reward hn
    have hdecided : .decided i round mode selection ∈ events :=
      List.mem_of_mem_take (List.mem_of_mem_filter (List.mem_of_getLast? hlast))
    exact ⟨mode, selection, hlast,
      appraisal_fixedReward horacle hgreatest (hselects round mode selection hdecided)⟩
  have hnonneg : RewardLog.RegretNonneg i run.2.2.2 := by
    rw [hlog]
    apply (RewardLog.regretNonneg_new i policyCount roundCount).recordAll
    intro round reward hmem
    obtain ⟨n, hn⟩ := List.mem_iff_getElem?.mp hmem
    obtain ⟨_, _, -, happraisal⟩ := hround n round reward hn
    exact happraisal.regret_nonneg
  exact ⟨best, horacle, hgreatest, hround, hnonneg.cumulative_le⟩

/-- Three repetitions of two rounds of KL-UCB in both modes, for the one with a leader. -/
theorem runRepetitions_regret_leader :
    let c : Config ℝ := { Config.standard with plays := 1 }
    let means : List (Metric ℝ) := [⟨0, 1, 0⟩, ⟨0.5, 0.25, 0⟩]
    let leader : Policy Tape ℝ := .klUcb (KlUcb.new 2 true)
    ∃ s : Simulator (Policy Tape ℝ) (Replay ℝ) Tape ℝ,
      new (means.map .fixed) [.klUcb (KlUcb.new 2 false), leader] c none = .ok s ∧
      PathPolicy.oracle leader = bestBandwidth ∧
      let run := s.runRepetitions 3 2 ((⟨[]⟩ : History ℝ), (RewardLog.new 2 2 : RewardLog ℝ))
      (∀ round mode selection, .decided 1 round mode selection ∈ run.2.2.1.toList →
        Selects 1 2 selection.paths) ∧
      (∃ best, s.oracle 1 = some best ∧ ∀ (n round : ℕ) (reward : RoundReward ℝ),
        run.2.2.1.toList[n]? = some (.rewarded 1 round reward) →
          reward.oracle = best ∧ 0 ≤ reward.regret) ∧
      (run.2.2.2.cumulative 1 0).regret ≤ (run.2.2.2.cumulative 1 1).regret := by
  intro c means leader
  let basic : Policy Tape ℝ := .klUcb (KlUcb.new 2 false)
  obtain ⟨s, hnew⟩ : ∃ s : Simulator (Policy Tape ℝ) (Replay ℝ) Tape ℝ,
      new (means.map .fixed) [basic, leader] c none = .ok s := ⟨_, rfl⟩
  have hvalid : ∀ p ∈ [basic, leader], ∃ q : KlUcb ℝ, p = .klUcb q ∧ q.tallies.length = 2 := by
    intro p hp
    rcases List.mem_pair.mp hp with rfl | rfl
    · exact ⟨_, rfl, KlUcb.length_new 2 false⟩
    · exact ⟨_, rfl, KlUcb.length_new 2 true⟩
  have hsafe := safe_new hnew (Policy.reliable_klUcb .vanilla (show 1 ≤ 2 by decide)) hvalid
    Replay.responsive (by simp)
  obtain ⟨hpaths, -, hplays, -, hforever, -⟩ := new_eq_ok hnew
  have hplain : PathPolicy.oracle leader = bestBandwidth := Policy.oracle_eq nofun
  have hselects : ∀ round mode selection, .decided 1 round mode selection ∈
      (s.runRepetitions 3 2
        ((⟨[]⟩ : History ℝ), (RewardLog.new 2 2 : RewardLog ℝ))).2.2.1.toList →
      Selects 1 2 selection.paths := by
    intro round mode selection hmem
    have hselects := selects_of_decided hsafe hforever 3 2 _ hmem
    rw [hplays, hpaths] at hselects
    exact hselects
  obtain ⟨best, hbest, -, hrounds, hgrows⟩ :=
    runRepetitions_regret hnew (i := 1) rfl hplain 3 2 2 2 hselects
  refine ⟨s, hnew, hplain, hselects, ⟨best, hbest, fun n round reward hn => ?_⟩, hgrows 0⟩
  obtain ⟨_, _, -, happraisal⟩ := hrounds n round reward hn
  exact ⟨happraisal.oracle_eq, happraisal.regret_nonneg⟩

end Simulator

end PathSelection
