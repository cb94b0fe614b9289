import PathSelection.Proofs.KlUcb.Visits
import PathSelection.Proofs.Simulator.Run
import PathSelection.Proofs.Source.Replay
import PathSelection.Random.ChaCha

namespace PathSelection

namespace Replay

variable {ρ α : Type} [Scalar α]

/-- The values of `k` live paths for a snapshot. -/
def shown (k : Nat) (snapshot : List (Metric α)) : List (Metric α) :=
  (List.range k).map fun i => snapshot[i]?.getD ⟨0, 1, 0⟩

theorem shown_of_le {k : Nat} {snapshot : List (Metric α)} (h : k ≤ snapshot.length) :
    shown k snapshot = snapshot.take k := by
  unfold shown
  apply List.ext_getElem
  · rw [List.length_map, List.length_range, List.length_take, Nat.min_eq_left h]
  · intro i hi _
    have hlt : i < k := by simpa using hi
    rw [List.getElem_map, List.getElem_range, List.getElem_take,
      List.getElem?_eq_getElem (Nat.lt_of_lt_of_le hlt h)]
    rfl

theorem shown_nil (k : Nat) : shown k ([] : List (Metric α)) = List.replicate k ⟨0, 1, 0⟩ :=
  List.map_const' .. |>.trans (congrArg (List.replicate · _) List.length_range)

/-- The live paths of `k` paths after a measurement of a snapshot. -/
def livePaths (k : Nat) (snapshot : List (Metric α)) : List (Path ρ α) :=
  (List.range k).map fun i => .source i ⟨0, 1, 0⟩ (snapshot[i]?.getD ⟨0, 1, 0⟩)

theorem measureAll_livePaths [RandomSource ρ α] {k : Nat} {snapshot next : List (Metric α)}
    (h : ∀ i < k, ∀ d : Metric α, next[i]?.getD (snapshot[i]?.getD d) = next[i]?.getD d) :
    Path.measureAll (fun i => next[i]?) (livePaths k snapshot : List (Path ρ α)) =
      (shown k next, livePaths k next) := by
  unfold Path.measureAll livePaths shown
  dsimp only
  simp only [List.map_map]
  refine Prod.ext (List.map_congr_left fun i hi => ?_) (List.map_congr_left fun i hi => ?_)
  · exact h i (List.mem_range.mp hi) _
  · exact congrArg (Path.source i _) (h i (List.mem_range.mp hi) _)

end Replay

namespace Simulator

open Replay

variable {π ρ α τ : Type} {valid : π → Prop}
variable [Scalar α] [RandomSource ρ α] [PathPolicy π α] [Recorder τ α]
variable {s s' : Simulator π (Replay α) ρ α} {k : Nat} {r r' : Replay α}

/-- A run over the `k` live paths of a replay, as it is before a turn. -/
structure Follows (k : Nat) (r : Replay α) (s : Simulator π (Replay α) ρ α) : Prop where
  source_eq : s.source = some r
  paths_eq : s.paths = livePaths k r.current
  pathCount_eq : r.paths = k

omit [RandomSource ρ α] [PathPolicy π α] in
theorem Follows.isSome_source (h : Follows k r s) : s.source.isSome = true := by
  rw [h.source_eq]
  rfl

omit [RandomSource ρ α] [PathPolicy π α] in
theorem Follows.length_paths (h : Follows k r s) : s.paths.length = k := by
  rw [h.paths_eq, livePaths, List.length_map, List.length_range]

/-- What one turn takes from the replay. -/
structure TurnReplayed (k attempts : Nat) (r : Replay α) (b : Block α) (r' : Replay α) : Prop where
  fetches : Fetches k attempts r.current r.script b.feeds r'.script r'.current
  preferred_eq : r'.preferred = r.preferred ++ [b.selection.paths]
  consumed_eq : r'.consumed + r'.script.length = r.consumed + r.script.length
  metrics_eq : b.metrics = shown k r'.current

theorem Turned.replayed {policy round : Nat} {b : Block α} (h : Turned policy round s b s')
    (hfollows : Follows k r s) :
    ∃ r', Follows k r' s' ∧ TurnReplayed k s.refreshAttempts r b r' := by
  have hsteered := h.steered
  rw [hfollows.source_eq] at hsteered
  obtain ⟨r', hsource, hpaths, hfetches, hpreferred, hconsumed⟩ := fetches_of_steered hsteered
  rw [hfollows.pathCount_eq] at hpaths hfetches
  have hsample : s'.sample = fun i => r'.current[i]? := by
    unfold Simulator.sample
    rw [hsource]
    rfl
  -- The paths kept the values of the last snapshot, so that one without a new value shows that one.
  have hmeasured := h.measured
  rw [hsample, hfollows.paths_eq, measureAll_livePaths fun i hi d => hfetches.getD_eq hi d]
    at hmeasured
  obtain ⟨hmetrics, hpathsEq⟩ := Prod.mk.inj hmeasured
  exact ⟨r', ⟨hsource, hpathsEq.symm, hpaths⟩, hfetches, hpreferred, hconsumed, hmetrics.symm⟩

/-- What turns one after another take from the replay. -/
inductive Replays (k attempts : Nat) : Replay α → List (Block α) → Replay α → Prop
  | nil (r : Replay α) : Replays k attempts r [] r
  | cons {r r₁ r₂ : Replay α} {b : Block α} {blocks : List (Block α)}
      (hturn : TurnReplayed k attempts r b r₁) (hrest : Replays k attempts r₁ blocks r₂) :
      Replays k attempts r (b :: blocks) r₂

theorem Turns.replays {P first : Nat} {blocks : List (Block α)} (h : Turns P first s blocks s')
    (hfollows : Follows k r s) :
    ∃ r', Follows k r' s' ∧ Replays k s.refreshAttempts r blocks r' := by
  induction h generalizing r with
  | nil first s => exact ⟨r, hfollows, .nil r⟩
  | @cons first s s₁ s₂ b blocks hturn _ ih =>
    obtain ⟨r₁, hfollows₁, hreplayed⟩ := hturn.replayed hfollows
    obtain ⟨r₂, hfollows₂, hrest⟩ := ih hfollows₁
    rw [hturn.sameSetting.refreshAttempts_eq] at hrest
    exact ⟨r₂, hfollows₂, .cons hreplayed hrest⟩

section Replays

variable {attempts : Nat} {blocks : List (Block α)}

theorem Replays.preferred_eq (h : Replays k attempts r blocks r') :
    r'.preferred = r.preferred ++ blocks.map fun b => b.selection.paths := by
  induction h with
  | nil r => exact (List.append_nil _).symm
  | cons hturn _ ih =>
    rw [ih, hturn.preferred_eq, List.append_assoc]
    rfl

theorem Replays.consumed_eq (h : Replays k attempts r blocks r') :
    r'.consumed + r'.script.length = r.consumed + r.script.length := by
  induction h with
  | nil r => rfl
  | cons hturn _ ih => exact ih.trans hturn.consumed_eq

theorem Replays.suffix (h : Replays k attempts r blocks r') : r'.script <:+ r.script := by
  induction h with
  | nil r => exact List.suffix_refl _
  | cons hturn _ ih => exact ih.trans hturn.fetches.suffix

/-- As long as the source is not exhausted, each turn takes something from the script. -/
theorem Replays.length_le (h : Replays k attempts r blocks r') (hattempts : 0 < attempts)
    (hfeeds : ∀ b ∈ blocks, .exhausted ∉ b.feeds) :
    blocks.length + r'.script.length ≤ r.script.length := by
  induction h with
  | nil r => exact Nat.le_of_eq (Nat.zero_add _)
  | cons hturn _ ih =>
    have hless := hturn.fetches.length_lt hattempts (hfeeds _ List.mem_cons_self)
    have hrest := ih fun b hb => hfeeds b (List.mem_cons_of_mem _ hb)
    rw [List.length_cons]
    omega

/-- The turns take the full snapshots in order, each of them one. -/
theorem Replays.full_eq (h : Replays k attempts r blocks r')
    (hpatient : Patient k attempts r.script) :
    full k r'.script = (full k r.script).drop blocks.length := by
  induction h with
  | nil r => rfl
  | cons hturn _ ih =>
    obtain ⟨hfull, -, -⟩ := hturn.fetches.full_eq hpatient
    rw [ih (hpatient.of_suffix hturn.fetches.suffix), hfull, List.length_cons, List.drop_tail]

theorem Replays.length_le_full (h : Replays k attempts r blocks r')
    (hpatient : Patient k attempts r.script) (hfeeds : ∀ b ∈ blocks, .exhausted ∉ b.feeds) :
    blocks.length ≤ (full k r.script).length := by
  induction h with
  | nil r => exact Nat.zero_le _
  | cons hturn _ ih =>
    obtain ⟨hfull, -, hended⟩ := hturn.fetches.full_eq hpatient
    have hne := fun hnil => hfeeds _ List.mem_cons_self (hended.mpr hnil)
    have hrest := ih (hpatient.of_suffix hturn.fetches.suffix)
      fun b hb => hfeeds b (List.mem_cons_of_mem _ hb)
    have hpos := List.length_pos_iff.mpr hne
    rw [hfull, List.length_tail] at hrest
    rw [List.length_cons]
    omega

/-- Each turn measures the last of the full snapshots that were taken until then. -/
theorem Replays.metrics_eq (h : Replays k attempts r blocks r')
    (hpatient : Patient k attempts r.script) {j : Nat} (hj : j < blocks.length) :
    (blocks[j]).metrics = shown k (((full k r.script).take (j + 1)).getLastD r.current) := by
  induction h generalizing j with
  | nil r => exact absurd hj (Nat.not_lt_zero j)
  | @cons r r₁ r₂ b blocks hturn _ ih =>
    obtain ⟨hfull, hcurrent, -⟩ := hturn.fetches.full_eq hpatient
    have hlast : ∀ n, ((full k r.script).take (n + 1)).getLastD r.current =
        ((full k r₁.script).take n).getLastD r₁.current := by
      intro n
      rw [hfull, hcurrent]
      cases full k r.script with
      | nil => rw [List.take_nil, List.tail_nil, List.take_nil]; rfl
      | cons next rest => rw [List.take_succ_cons, List.getLastD_cons]; rfl
    cases j with
    | zero =>
      rw [hlast 0]
      exact hturn.metrics_eq
    | succ j =>
      rw [hlast (j + 1)]
      exact ih (hpatient.of_suffix hturn.fetches.suffix) (Nat.lt_of_succ_lt_succ hj)

/-- A run that stops has used up the script. -/
theorem StopsAfter.replayed {P first : Nat} {selection : Selection α} {feeds : List FeedStatus}
    (h : StopsAfter P first s blocks selection feeds s') (hfollows : Follows k r s)
    (hattempts : 0 < s.refreshAttempts) :
    ∃ r', s'.source = some r' ∧ r'.script = [] ∧ r'.consumed = r.consumed + r.script.length ∧
      r'.preferred =
        r.preferred ++ ((blocks.map fun b => b.selection.paths) ++ [selection.paths]) ∧
      blocks.length ≤ r.script.length ∧
      (Patient k s.refreshAttempts r.script → blocks.length = (full k r.script).length) := by
  have hforever := h.forever
  obtain ⟨s₁, hturns, hstopped⟩ := h
  obtain ⟨r₁, hfollows₁, hreplays⟩ := hturns.replays hfollows
  have hgoes := hturns.goes_on hforever
  have hsteered := hstopped.steered
  rw [hfollows₁.source_eq, hturns.sameSetting.refreshAttempts_eq] at hsteered
  obtain ⟨r', hsource, -, hfetches, hpreferred, hconsumed⟩ := fetches_of_steered hsteered
  rw [hfollows₁.pathCount_eq] at hfetches
  have hnil : r'.script = [] := hfetches.eq_nil_of_exhausted hstopped.exhausted
  refine ⟨r', hsource, hnil, ?_, ?_, ?_, ?_⟩
  · rw [hnil, hreplays.consumed_eq] at hconsumed
    exact hconsumed
  · rw [hpreferred, hreplays.preferred_eq, List.append_assoc]
  · have hle := hreplays.length_le hattempts hgoes
    omega
  · intro hpatient
    have hle : blocks.length ≤ (full k r.script).length := hreplays.length_le_full hpatient hgoes
    -- The last turn found no full snapshot, so that the turns before it took all of them.
    have hrest : full k r₁.script = [] :=
      (hfetches.full_eq (hpatient.of_suffix hreplays.suffix)).2.2.mp hstopped.exhausted
    rw [hreplays.full_eq hpatient] at hrest
    have hge : (full k r.script).length ≤ blocks.length := List.drop_eq_nil_iff.mp hrest
    exact Nat.le_antisymm hle hge

end Replays

section Start

variable {script : List (List (Metric α))} {policies : List π} {c : Config α}

omit [RandomSource ρ α] in
theorem follows_new (hnew : Simulator.new (sourcePaths k) policies c
    (some (withPathCount k script)) = .ok s) : Follows k (withPathCount k script) s := by
  obtain ⟨hpaths, -, -, -, -, -, hsource⟩ := new_eq_ok hnew
  exact ⟨hsource, hpaths, rfl⟩

omit [RandomSource ρ α] in
theorem safe_replay (hnew : Simulator.new (sourcePaths k) policies c
      (some (withPathCount k script)) = .ok s)
    (hpolicies : Reliable c.mode c.plays k valid) (hvalid : ∀ p ∈ policies, valid p) :
    Safe valid (fun _ : Replay α => True) s := by
  have hlength : (sourcePaths k : List (Path ρ α)).length = k := by
    unfold sourcePaths
    rw [List.length_map, List.length_range]
  exact safe_new hnew (hlength.symm ▸ hpolicies) hvalid responsive fun _ _ => trivial

/-- What the turns of a run with a patient script measure. -/
theorem Replays.metrics_of_new {attempts : Nat} {blocks : List (Block α)}
    (h : Replays k attempts (withPathCount k script) blocks r')
    (hpatient : Patient k attempts script) {j : Nat} (hj : j < blocks.length) :
    (∀ hfull : j < (full k script).length,
      (blocks[j]).metrics = ((full k script)[j]).take k) ∧
    ((full k script).length ≤ j → (blocks[j]).metrics =
      ((full k script).getLast?.map (·.take k)).getD (List.replicate k ⟨0, 1, 0⟩)) := by
  have hmetrics : (blocks[j]).metrics = shown k (((full k script).take (j + 1)).getLastD []) :=
    h.metrics_eq hpatient hj
  have hwide : ∀ snapshot ∈ full k script, k ≤ snapshot.length := by
    intro snapshot hmem
    exact of_decide_eq_true (List.mem_filter.mp hmem).2
  constructor
  · intro hfull
    rw [hmetrics, List.take_succ_eq_append_getElem hfull, List.getLastD_concat]
    exact shown_of_le (hwide _ (List.getElem_mem hfull))
  · intro hfull
    rw [hmetrics, List.take_of_length_le (Nat.le_succ_of_le hfull), List.getLastD_eq_getLast?]
    cases hlast : (full k script).getLast? with
    | none => exact shown_nil k
    | some snapshot => exact shown_of_le (hwide snapshot (List.mem_of_getLast? hlast))

/-- A run with an end over the live paths of a replay completes all rounds. If the script is
patient, turn `j` measures the full snapshot number `j`, and when there are no more, the last
one. -/
theorem run_replay (hnew : Simulator.new (sourcePaths k) policies c
      (some (withPathCount k script)) = .ok s)
    (hpolicies : Reliable c.mode c.plays k valid) (hvalid : ∀ p ∈ policies, valid p)
    (hforever : c.forever = false) (T : Nat) (log : τ) :
    ∃ (blocks : List (Block α)) (s' : Simulator π (Replay α) ρ α) (r' : Replay α),
      s.run T log = (.ok (.completed T), s', Recorder.recordAll
        (.began :: Block.runEvents c.mode true policies.length 0 blocks) log) ∧
      Steps s (.began :: Block.runEvents c.mode true policies.length 0 blocks) s' ∧
      blocks.length = T * policies.length ∧ (∀ b ∈ blocks, b.Complete c.plays k true) ∧
      s'.source = some r' ∧ r'.preferred = (blocks.map fun b => b.selection.paths) ∧
      (Patient k (Nat.max c.refreshAttempts 1) script → ∀ j (hj : j < blocks.length),
        (∀ hfull : j < (full k script).length,
          (blocks[j]).metrics = ((full k script)[j]).take k) ∧
        ((full k script).length ≤ j → (blocks[j]).metrics =
          ((full k script).getLast?.map (·.take k)).getD (List.replicate k ⟨0, 1, 0⟩))) := by
  have hsafe := safe_replay hnew hpolicies hvalid
  have hfollows := follows_new hnew
  obtain ⟨-, hpoliciesEq, hplays, hmode, hforeverEq, hattempts, -⟩ := new_eq_ok hnew
  obtain ⟨blocks, s', hturns, hlength, -, hrun⟩ :=
    run_completes hsafe (hforeverEq.trans hforever) T log
  obtain ⟨r', hfollows', hreplays⟩ := hturns.replays hfollows
  have hcomplete := hturns.complete hsafe.ready.attempts_pos
  have hsteps := hturns.steps
  rw [hmode, hfollows.isSome_source, hpoliciesEq] at hrun hsteps
  rw [hplays, hfollows.length_paths, hfollows.isSome_source] at hcomplete
  rw [hpoliciesEq] at hlength
  rw [hattempts] at hreplays
  refine ⟨blocks, s', r', hrun, .cons (.began s) hsteps, hlength, hcomplete, hfollows'.source_eq,
    ?_, ?_⟩
  · exact hreplays.preferred_eq.trans (List.nil_append _)
  · intro hpatient j hj
    exact hreplays.metrics_of_new hpatient hj

/-- A script with a narrow snapshot before two full ones, of which the second is too wide. -/
def unevenScript : List (List (Metric Float)) :=
  [[⟨0, 1, 0⟩], [⟨0, 0.5, 0⟩, ⟨0, 1, 0⟩], [⟨0, 1, 0⟩, ⟨0, 0, 0⟩, ⟨0, 1, 0⟩]]

/-- Three rounds over it: the last one measures the second full snapshot again. -/
theorem run_replay_uneven :
    Patient 2 2 unevenScript ∧ ∃ (s s' : Simulator (KlUcb Float) (Replay Float) ChaCha Float)
      (blocks : List (Block Float)) (h : History Float),
      Simulator.new (sourcePaths 2) [KlUcb.new 2 true]
        { (Config.standard : Config Float) with plays := 1, refreshAttempts := 2 }
        (some (withPathCount 2 unevenScript)) = .ok s ∧
      s.run 3 ⟨[]⟩ = (.ok (.completed 3), s', h) ∧
      (blocks.map fun b => b.metrics) =
        [[⟨0, 0.5, 0⟩, ⟨0, 1, 0⟩], [⟨0, 1, 0⟩, ⟨0, 0, 0⟩], [⟨0, 1, 0⟩, ⟨0, 0, 0⟩]] := by
  have hpatient : Patient 2 2 unevenScript := by decide
  have hvalid : ∀ p ∈ ([KlUcb.new 2 true] : List (KlUcb Float)), p.tallies.length = 2 := by
    simp [KlUcb.length_new]
  obtain ⟨s, hnew⟩ : ∃ s : Simulator (KlUcb Float) (Replay Float) ChaCha Float,
      Simulator.new (sourcePaths 2) [KlUcb.new 2 true]
        { (Config.standard : Config Float) with plays := 1, refreshAttempts := 2 }
        (some (withPathCount 2 unevenScript)) = .ok s := ⟨_, rfl⟩
  obtain ⟨blocks, s', r', hrun, -, hlength, -, -, -, hmetrics⟩ :=
    run_replay hnew (KlUcb.reliable .vanilla (show 1 ≤ 2 by decide)) hvalid rfl 3
      (⟨[]⟩ : History Float)
  refine ⟨hpatient, s, s', blocks, _, hnew, hrun, ?_⟩
  obtain ⟨b₀, b₁, b₂, rfl⟩ := List.length_eq_three.mp hlength
  have h₀ := (hmetrics hpatient 0 (show 0 < 3 by decide)).1 (by decide)
  have h₁ := (hmetrics hpatient 1 (show 1 < 3 by decide)).1 (by decide)
  have h₂ := (hmetrics hpatient 2 (show 2 < 3 by decide)).2 (by decide)
  exact congrArg₂ List.cons h₀ (congrArg₂ List.cons h₁ (congrArg (fun metrics => [metrics]) h₂))

/-- Without an end and with at least one policy, the rounds come to the end of the replay. -/
theorem rounds_replay (hsafe : Safe valid (fun _ : Replay α => True) s) (hfollows : Follows k r s)
    (hforever : s.forever = true) (hpolicies : 0 < s.policies.length) (log : τ) :
    ∃ (blocks : List (Block α)) (selection : Selection α) (feeds : List FeedStatus)
      (s' : Simulator π (Replay α) ρ α),
      StopsAfter s.policies.length 0 s blocks selection feeds s' ∧
      rounds (r.script.length + 1) 0 s log =
        (.ok (.exhausted (blocks.length / s.policies.length)), s', Recorder.recordAll
          (Block.stopEvents s.mode true s.policies.length 0 blocks selection feeds) log) := by
  rcases rounds_cases hsafe rfl (r.script.length + 1) 0 log with
    ⟨blocks, s', hturns, hlength, -, -⟩ | ⟨blocks, selection, feeds, s', hstops, -, hrounds⟩
  · -- So many turns would take more snapshots than there are.
    exfalso
    obtain ⟨r', -, hreplays⟩ := hturns.replays hfollows
    have hle := hreplays.length_le hsafe.ready.attempts_pos (hturns.goes_on hforever)
    have hmany : r.script.length + 1 ≤ blocks.length :=
      hlength ▸ Nat.le_mul_of_pos_right _ hpolicies
    omega
  · rw [Nat.zero_mul, hfollows.isSome_source, Nat.zero_add] at hrounds
    rw [Nat.zero_mul] at hstops
    exact ⟨blocks, selection, feeds, s', hstops, hrounds⟩

theorem run_forever_eq (hforever : s.forever = true) (hsource : s.source = some r) (T : Nat)
    (log : τ) :
    s.run T log = rounds (r.script.length + 1) 0 s (Recorder.record (.began : Event α) log) := by
  unfold run roundCount
  rw [hforever, hsource]
  rfl

/-- A run without an end over the live paths of a replay stops when the script is used up. The turn
that finds the end of it selects its paths, but measures and learns nothing. -/
theorem run_replay_exhausts (hnew : Simulator.new (sourcePaths k) policies c
      (some (withPathCount k script)) = .ok s)
    (hpolicies : Reliable c.mode c.plays k valid) (hvalid : ∀ p ∈ policies, valid p)
    (hforever : c.forever = true) (hpos : 0 < policies.length) (log : τ) :
    ∃ (blocks : List (Block α)) (selection : Selection α) (feeds : List FeedStatus)
      (s' : Simulator π (Replay α) ρ α) (r' : Replay α) (log' : τ),
      (∀ T, s.run T log = (.ok (.exhausted (blocks.length / policies.length)), s', log')) ∧
      (∀ R T, 1 ≤ R →
        s.runRepetitions R T log = (.ok (.exhausted (blocks.length / policies.length)), s', log')) ∧
      (∀ count, script.length < count →
        rounds count 0 s (Recorder.record (.began : Event α) log) =
          (.ok (.exhausted (blocks.length / policies.length)), s', log')) ∧
      log' = Recorder.recordAll
        (.began :: Block.stopEvents c.mode true policies.length 0 blocks selection feeds) log ∧
      Steps s (.began :: Block.stopEvents c.mode true policies.length 0 blocks selection feeds) s' ∧
      (∀ b ∈ blocks, b.Complete c.plays k true) ∧ Selects c.plays k selection.paths ∧
      s'.source = some r' ∧ r'.script = [] ∧ r'.consumed = script.length ∧
      r'.preferred = (blocks.map fun b => b.selection.paths) ++ [selection.paths] ∧
      blocks.length ≤ script.length ∧
      (Patient k (Nat.max c.refreshAttempts 1) script →
        blocks.length = (full k script).length) := by
  have hsafe := safe_replay hnew hpolicies hvalid
  have hfollows := follows_new hnew
  obtain ⟨-, hpoliciesEq, hplays, hmode, hforeverEq, hattempts, hsource⟩ := new_eq_ok hnew
  have hforever' := hforeverEq.trans hforever
  obtain ⟨blocks, selection, feeds, s', hstops, hrounds⟩ :=
    rounds_replay hsafe hfollows hforever' (hpoliciesEq.symm ▸ hpos)
      (Recorder.record (.began : Event α) log)
  obtain ⟨r', hsource', hnil, hconsumed, hpreferred, hle, hfull⟩ :=
    hstops.replayed hfollows hsafe.ready.attempts_pos
  have hsteps := hstops.steps
  obtain ⟨s₁, hturns, hstopped⟩ := hstops
  have hcomplete := hturns.complete hsafe.ready.attempts_pos
  have hselects := hstopped.selects
  rw [hturns.sameSetting.plays_eq, hturns.sameSetting.length_paths] at hselects
  rw [hmode, hfollows.isSome_source, hpoliciesEq] at hsteps
  rw [hmode, hpoliciesEq] at hrounds
  rw [hplays, hfollows.length_paths, hfollows.isSome_source] at hcomplete
  rw [hplays, hfollows.length_paths] at hselects
  rw [hattempts] at hfull
  have hrun : ∀ T, s.run T log = (.ok (.exhausted (blocks.length / policies.length)), s',
      Recorder.recordAll
        (.began :: Block.stopEvents c.mode true policies.length 0 blocks selection feeds) log) := by
    intro T
    exact (run_forever_eq hforever' hsource T log).trans hrounds
  refine ⟨blocks, selection, feeds, s', r', _, hrun, ?_, ?_, rfl, .cons (.began s) hsteps,
    hcomplete, hselects, hsource', hnil, hconsumed.trans (Nat.zero_add _), hpreferred, hle, hfull⟩
  · intro R T hR
    obtain ⟨R, rfl⟩ := Nat.exists_eq_add_of_le' hR
    unfold runRepetitions runRepetitionsFrom
    rw [hrun T]
  · intro count hcount
    exact rounds_of_exhausted hrounds hcount

/-- Without an end the run stops in the third round, with both full snapshots measured. -/
theorem run_replay_exhausts_uneven :
    Patient 2 2 unevenScript ∧ ∃ (s s' : Simulator (KlUcb Float) (Replay Float) ChaCha Float)
      (r' : Replay Float) (h : History Float),
      Simulator.new (sourcePaths 2) [KlUcb.new 2 true]
        { (Config.standard : Config Float) with plays := 1, forever := true, refreshAttempts := 2 }
        (some (withPathCount 2 unevenScript)) = .ok s ∧
      s.runRepetitions 5 7 ⟨[]⟩ = (.ok (.exhausted 2), s', h) ∧
      s'.source = some r' ∧ r'.consumed = 3 ∧ r'.preferred.length = 3 := by
  have hpatient : Patient 2 2 unevenScript := by decide
  have hvalid : ∀ p ∈ ([KlUcb.new 2 true] : List (KlUcb Float)), p.tallies.length = 2 := by
    simp [KlUcb.length_new]
  obtain ⟨s, hnew⟩ : ∃ s : Simulator (KlUcb Float) (Replay Float) ChaCha Float,
      Simulator.new (sourcePaths 2) [KlUcb.new 2 true]
        { (Config.standard : Config Float) with plays := 1, forever := true, refreshAttempts := 2 }
        (some (withPathCount 2 unevenScript)) = .ok s := ⟨_, rfl⟩
  obtain ⟨blocks, selection, feeds, s', r', h, -, hrun, -, -, -, -, -, hsource, -, hconsumed,
    hpreferred, -, hfull⟩ :=
    run_replay_exhausts hnew (KlUcb.reliable .vanilla (show 1 ≤ 2 by decide)) hvalid rfl
      (by decide) (⟨[]⟩ : History Float)
  have hcount : blocks.length = 2 := (hfull hpatient).trans (by decide)
  have hanswer := hrun 5 7 (by decide)
  rw [hcount] at hanswer
  refine ⟨hpatient, s, s', r', h, hnew, hanswer, hsource, hconsumed, ?_⟩
  rw [hpreferred, List.length_append, List.length_map, hcount]
  rfl

end Start

end Simulator

end PathSelection
