import Mathlib.Algebra.BigOperators.Group.Finset.Basic
import Mathlib.Algebra.Order.BigOperators.Group.Multiset
import PathSelection.Proofs.KlUcb.Visits
import PathSelection.Proofs.Simulator.Replay
import PathSelection.Random.ChaCha

namespace PathSelection

/-- Whether a round log counts an event. -/
def Event.isCounted {α : Type} : Event α → Bool
  | .began => true
  | .selected .. => true
  | _ => false

/-- The policy and the round of the turn that an event belongs to. -/
def Event.turn? {α : Type} : Event α → Option (Nat × Nat)
  | .began => none
  | .decided policy round .. | .preferred policy round _ | .refreshed policy round _
  | .measured policy round .. | .selected policy round _ | .updated policy round ..
  | .rewarded policy round _ => some (policy, round)

namespace Block

variable {α : Type} [Scalar α] {mode : RoundMode} {live : Bool} {P policy round path : Nat}

/-- The events of repetitions of a run, one after another. -/
def repetitionEvents (mode : RoundMode) (live : Bool) (P : Nat)
    (repetitions : List (List (Block α))) : List (Event α) :=
  repetitions.flatMap fun blocks => .began :: runEvents mode live P 0 blocks

section Counts

/-- Of the events of a turn only those of the selected paths are counted. -/
theorem countP_events {q : Event α → Bool} (hq : ∀ e : Event α, e.isCounted = false → q e = false)
    (b : Block α) (policy round : Nat) :
    (b.events mode live policy round).countP q =
      (b.selection.paths.map fun i => (.selected policy round i : Event α)).countP q := by
  have hsteering : (steering live policy round b.selection.paths b.feeds : List (Event α)).countP q
      = 0 := by
    apply List.countP_eq_zero.mpr
    intro e he
    unfold steering at he
    cases live with
    | false => exact absurd he List.not_mem_nil
    | true =>
      rcases List.mem_cons.mp he with rfl | he
      · exact Bool.eq_false_iff.mp (hq _ rfl)
      · obtain ⟨status, -, rfl⟩ := List.mem_map.mp he
        exact Bool.eq_false_iff.mp (hq _ rfl)
  have hmeasured : (b.metrics.mapIdx fun i metric =>
      (.measured policy round i metric : Event α)).countP q = 0 := by
    apply List.countP_eq_zero.mpr
    intro e he
    obtain ⟨i, hi, rfl⟩ := List.mem_mapIdx.mp he
    exact Bool.eq_false_iff.mp (hq _ rfl)
  have hlast : ([.updated policy round mode b.selection.paths b.chosen,
      .rewarded policy round b.reward] : List (Event α)).countP q = 0 := by
    rw [List.countP_cons_of_neg (Bool.eq_false_iff.mp (hq _ rfl)),
      List.countP_cons_of_neg (Bool.eq_false_iff.mp (hq _ rfl)), List.countP_nil]
  unfold events opening closing
  rw [List.countP_append, List.countP_cons_of_neg (Bool.eq_false_iff.mp (hq _ rfl)), hsteering,
    List.countP_append, hmeasured, List.countP_append, hlast]
  omega

theorem countP_isBeginning_events (b : Block α) (policy round : Nat) :
    (b.events mode live policy round).countP Event.isBeginning = 0 := by
  rw [countP_events]
  · apply List.countP_eq_zero.mpr
    intro e he
    obtain ⟨i, -, rfl⟩ := List.mem_map.mp he
    exact Bool.false_ne_true
  · intro e he
    cases e with
    | began => exact absurd he Bool.noConfusion
    | _ => rfl

theorem countP_isSelection_events (b : Block α) (policy round path : Nat) :
    (b.events mode live policy round).countP (Event.isSelection policy round path) =
      b.selection.paths.count path := by
  rw [countP_events]
  · rw [List.countP_map]
    apply List.countP_congr
    intro i _
    simp [Event.isSelection]
  · intro e he
    cases e with
    | selected => exact absurd he Bool.noConfusion
    | _ => rfl

theorem countP_isBeginning_runEvents (first : Nat) (blocks : List (Block α)) :
    (runEvents mode live P first blocks).countP Event.isBeginning = 0 := by
  induction blocks generalizing first with
  | nil => rfl
  | cons b blocks ih => rw [runEvents, List.countP_append, countP_isBeginning_events, ih]

/-- All events of a turn belong to it. -/
theorem turn?_of_mem_events {b : Block α} {e : Event α} (h : e ∈ b.events mode live policy round) :
    e.turn? = some (policy, round) := by
  rcases List.mem_append.mp h with h | h
  · rcases List.mem_cons.mp h with rfl | h
    · rfl
    · unfold steering at h
      cases live with
      | false => exact absurd h List.not_mem_nil
      | true =>
        rcases List.mem_cons.mp h with rfl | h
        · rfl
        · obtain ⟨status, -, rfl⟩ := List.mem_map.mp h
          rfl
  · rcases List.mem_append.mp h with h | h
    · obtain ⟨i, hi, rfl⟩ := List.mem_mapIdx.mp h
      rfl
    · rcases List.mem_append.mp h with h | h
      · obtain ⟨i, -, rfl⟩ := List.mem_map.mp h
        rfl
      · rcases List.mem_cons.mp h with rfl | h
        · rfl
        · obtain rfl := List.mem_singleton.mp h
          rfl

section OneTurn

variable {q : Event α → Bool} (hq : ∀ e, q e = true → e.turn? = some (policy, round))

include hq

/-- A turn with another number records nothing for a policy and a round. -/
theorem countP_runEvents_of_ne {n first : Nat} {blocks : List (Block α)}
    (hpolicy : policy < P) (hn : n = round * P + policy)
    (houtside : n < first ∨ first + blocks.length ≤ n) :
    (runEvents mode live P first blocks).countP q = 0 := by
  induction blocks generalizing first with
  | nil => rfl
  | cons b blocks ih =>
    rw [List.length_cons] at houtside
    have hne : ¬ (first % P = policy ∧ first / P = round) := by
      rw [index_eq_iff round hpolicy]
      omega
    have hother : (b.events mode live (first % P) (first / P)).countP q = 0 := by
      apply List.countP_eq_zero.mpr
      intro e he hqe
      have hturn := (turn?_of_mem_events he).symm.trans (hq e hqe)
      exact hne (Prod.mk.inj (Option.some.inj hturn))
    rw [runEvents, List.countP_append, hother, ih (by omega)]

/-- What is recorded for a policy and a round is recorded in their turn. -/
theorem countP_runEvents {blocks : List (Block α)} (hpolicy : policy < P)
    (hn : round * P + policy < blocks.length) :
    (runEvents mode live P 0 blocks).countP q =
      ((blocks[round * P + policy]).events mode live policy round).countP q := by
  let n := round * P + policy
  have hsplit : blocks = blocks.take n ++ ([blocks[n]] ++ blocks.drop (n + 1)) := by
    rw [List.singleton_append, ← List.drop_eq_getElem_cons hn, List.take_append_drop]
  have hlength : (blocks.take n).length = n := List.length_take_of_le (Nat.le_of_lt hn)
  have hbefore : (runEvents mode live P 0 (blocks.take n)).countP q = 0 :=
    countP_runEvents_of_ne hq (n := n) hpolicy rfl (by omega)
  have hafter : (runEvents mode live P (n + 1) (blocks.drop (n + 1))).countP q = 0 :=
    countP_runEvents_of_ne hq (n := n) hpolicy rfl (by omega)
  obtain ⟨hmod, hdiv⟩ := (index_eq_iff round hpolicy).mpr (rfl : n = round * P + policy)
  have hevents : runEvents mode live P 0 blocks = runEvents mode live P 0 (blocks.take n) ++
      ((blocks[n]).events mode live (n % P) (n / P) ++
        runEvents mode live P (n + 1) (blocks.drop (n + 1))) := by
    conv_lhs => rw [hsplit]
    rw [runEvents_append, runEvents_append, hlength, Nat.zero_add, List.length_singleton,
      runEvents_singleton]
  rw [hevents, List.countP_append, List.countP_append, hbefore, hafter, hmod, hdiv, Nat.zero_add,
    Nat.add_zero]

end OneTurn

theorem countP_isSelection_runEvents {blocks : List (Block α)} (hpolicy : policy < P)
    (hn : round * P + policy < blocks.length) :
    (runEvents mode live P 0 blocks).countP (Event.isSelection policy round path) =
      (blocks[round * P + policy]).selection.paths.count path := by
  have hq : ∀ e : Event α, e.isSelection policy round path = true →
      e.turn? = some (policy, round) := by
    intro e he
    cases e with
    | selected => simp_all [Event.isSelection, Event.turn?]
    | _ => exact absurd he Bool.false_ne_true
  rw [countP_runEvents hq hpolicy hn, countP_isSelection_events]

/-- Each of the `k` paths is counted as often as it stands in a selection of `m` paths. -/
theorem sum_count_paths {m k : Nat} {paths : List Nat} (h : Selects m k paths) :
    ∑ i ∈ Finset.range k, paths.count i = m := by
  have hmem : ∀ i ∈ (paths : Multiset Nat), i ∈ Finset.range k := by
    intro i hi
    exact Finset.mem_range.mpr (h.lt i (Multiset.mem_coe.mp hi))
  have hsum := Multiset.sum_count_eq_card hmem
  simp only [Multiset.coe_count, Multiset.coe_card] at hsum
  exact hsum.trans h.length_eq

/-- The repetitions, and for a policy and a round the selections, that are counted in them. -/
theorem countP_repetitionEvents {m k T : Nat} {repetitions : List (List (Block α))}
    (hcomplete : ∀ blocks ∈ repetitions,
      blocks.length = T * P ∧ ∀ b ∈ blocks, b.Complete m k live) :
    (repetitionEvents mode live P repetitions).countP Event.isBeginning = repetitions.length ∧
      ∀ policy < P, ∀ round < T,
        (∀ path, (repetitionEvents mode live P repetitions).countP
          (Event.isSelection policy round path) ≤ repetitions.length) ∧
        ∑ path ∈ Finset.range k, (repetitionEvents mode live P repetitions).countP
          (Event.isSelection policy round path) = repetitions.length * m := by
  induction repetitions with
  | nil =>
    refine ⟨rfl, fun policy _ round _ => ⟨fun path => Nat.le_refl 0, ?_⟩⟩
    rw [List.length_nil, Nat.zero_mul]
    exact Finset.sum_const_zero
  | cons blocks repetitions ih =>
    obtain ⟨hlength, hblocks⟩ := hcomplete blocks List.mem_cons_self
    obtain ⟨hrepetitions, hselections⟩ :=
      ih fun blocks' hmem => hcomplete blocks' (List.mem_cons_of_mem blocks hmem)
    have hevents : repetitionEvents mode live P (blocks :: repetitions) = .began ::
        (runEvents mode live P 0 blocks ++ repetitionEvents mode live P repetitions) := rfl
    rw [hevents, List.countP_cons_of_pos rfl, List.countP_append, countP_isBeginning_runEvents,
      hrepetitions, List.length_cons]
    refine ⟨by omega, fun policy hpolicy round hround => ?_⟩
    obtain ⟨hle, hsum⟩ := hselections policy hpolicy round hround
    have hn : round * P + policy < blocks.length := hlength ▸ index_lt hround hpolicy
    have hselects := (hblocks _ (List.getElem_mem hn)).selects
    have hcount : ∀ path, (Event.began :: (runEvents mode live P 0 blocks ++
        repetitionEvents mode live P repetitions)).countP (Event.isSelection policy round path) =
        (blocks[round * P + policy]).selection.paths.count path +
          (repetitionEvents mode live P repetitions).countP
            (Event.isSelection policy round path) := by
      intro path
      rw [List.countP_cons_of_neg Bool.false_ne_true, List.countP_append,
        countP_isSelection_runEvents hpolicy hn]
    constructor
    · intro path
      have hone := List.nodup_iff_count_le_one.mp hselects.nodup path
      have hrest := hle path
      rw [hcount path]
      omega
    · calc ∑ path ∈ Finset.range k, (Event.began :: (runEvents mode live P 0 blocks ++
            repetitionEvents mode live P repetitions)).countP (Event.isSelection policy round path)
          = ∑ path ∈ Finset.range k, (blocks[round * P + policy]).selection.paths.count path +
              ∑ path ∈ Finset.range k, (repetitionEvents mode live P repetitions).countP
                (Event.isSelection policy round path) := by
            rw [← Finset.sum_add_distrib]
            exact Finset.sum_congr rfl fun path _ => hcount path
        _ = m + repetitions.length * m := by rw [sum_count_paths hselects, hsum]
        _ = (repetitions.length + 1) * m := by rw [Nat.succ_mul, Nat.add_comm]

end Counts

end Block

namespace Simulator

open Replay

variable {π σ ρ α τ : Type} {valid : π → Prop} {active : σ → Prop}
variable [Scalar α] [RandomSource ρ α] [PathPolicy π α] [MeasurementSource σ α] [Recorder τ α]
variable {s : Simulator π σ ρ α}

theorem runRepetitionsFrom_eq (h : Safe valid active s) (hforever : s.forever = false)
    (last : Outcome) (R T : Nat) (log : τ) :
    ∃ (repetitions : List (List (Block α))) (s' : Simulator π σ ρ α),
      repetitions.length = R ∧
      (∀ blocks ∈ repetitions, blocks.length = T * s.policies.length ∧
        ∀ b ∈ blocks, b.Complete s.plays s.paths.length s.source.isSome) ∧
      Steps s (Block.repetitionEvents s.mode s.source.isSome s.policies.length repetitions) s' ∧
      runRepetitionsFrom last T R s log = (.ok (if R = 0 then last else .completed T), s',
        Recorder.recordAll
          (Block.repetitionEvents s.mode s.source.isSome s.policies.length repetitions) log) := by
  induction R generalizing s last log with
  | zero =>
    refine ⟨[], s, rfl, ?_, .nil s, rfl⟩
    intro blocks hmem
    exact absurd hmem List.not_mem_nil
  | succ R ih =>
    obtain ⟨blocks, s₁, hturns, hlength, hsafe, hrun⟩ := run_completes h hforever T log
    have hsame := hturns.sameSetting
    obtain ⟨repetitions, s', hcount, hcomplete, hsteps, hrest⟩ :=
      ih hsafe (hsame.forever_eq.trans hforever) (.completed T) (Recorder.recordAll
        (.began :: Block.runEvents s.mode s.source.isSome s.policies.length 0 blocks) log)
    rw [hsame.mode_eq, hsame.isSome_source, hsame.length_policies] at hsteps hrest
    rw [hsame.plays_eq, hsame.length_paths, hsame.isSome_source, hsame.length_policies] at hcomplete
    refine ⟨blocks :: repetitions, s', ?_, ?_, ?_, ?_⟩
    · rw [List.length_cons, hcount]
    · intro blocks' hmem
      rcases List.mem_cons.mp hmem with rfl | hmem
      · exact ⟨hlength, hturns.complete h.ready.attempts_pos⟩
      · exact hcomplete blocks' hmem
    · exact .cons (.began s) (hturns.steps.append hsteps)
    · have hlast : (if R = 0 then Outcome.completed T else .completed T) = .completed T :=
        ite_self _
      have hstep : runRepetitionsFrom last T (R + 1) s log =
          runRepetitionsFrom (.completed T) T R s₁ (Recorder.recordAll
            (.began :: Block.runEvents s.mode s.source.isSome s.policies.length 0 blocks) log) := by
        rw [runRepetitionsFrom, hrun]
      rw [hstep, hrest, hlast, if_neg (Nat.succ_ne_zero R), ← Recorder.recordAll_append]
      rfl

/-- Repetitions of a run with an end never fail. A fresh round log counts all of them, and as many
selections in each of their turns as paths are to be selected. -/
theorem runRepetitions_completes (h : Safe valid active s) (hforever : s.forever = false)
    (R T : Nat) :
    (∀ log : τ, ∃ (repetitions : List (List (Block α))) (s' : Simulator π σ ρ α),
      repetitions.length = R ∧
      (∀ blocks ∈ repetitions, blocks.length = T * s.policies.length ∧
        ∀ b ∈ blocks, b.Complete s.plays s.paths.length s.source.isSome) ∧
      Steps s (Block.repetitionEvents s.mode s.source.isSome s.policies.length repetitions) s' ∧
      s.runRepetitions R T log = (.ok (.completed (if R = 0 then 0 else T)), s',
        Recorder.recordAll
          (Block.repetitionEvents s.mode s.source.isSome s.policies.length repetitions) log)) ∧
    ∃ (s' : Simulator π σ ρ α) (log : RoundLog α),
      s.runRepetitions R T (RoundLog.new s.policies.length T s.paths.length) =
        (.ok (.completed (if R = 0 then 0 else T)), s', log) ∧
      log.repetitions = R ∧ (∀ n ∈ log.selected, n ≤ R) ∧
      ∀ policy < s.policies.length, ∀ round < T,
        ∑ path ∈ Finset.range s.paths.length, log.count policy round path = R * s.plays := by
  have houtcome : (if R = 0 then Outcome.completed 0 else .completed T) =
      .completed (if R = 0 then 0 else T) := (apply_ite Outcome.completed _ _ _).symm
  constructor
  · intro log
    obtain ⟨repetitions, s', hlength, hcomplete, hsteps, hrun⟩ :=
      runRepetitionsFrom_eq h hforever (.completed 0) R T log
    rw [houtcome] at hrun
    exact ⟨repetitions, s', hlength, hcomplete, hsteps, hrun⟩
  · let fresh : RoundLog α := RoundLog.new s.policies.length T s.paths.length
    obtain ⟨repetitions, s', hlength, hcomplete, -, hrun⟩ :=
      runRepetitionsFrom_eq h hforever (.completed 0) R T fresh
    rw [houtcome] at hrun
    let events := Block.repetitionEvents s.mode s.source.isSome s.policies.length repetitions
    let log : RoundLog α := Recorder.recordAll events fresh
    have hfull : fresh.Full := RoundLog.full_new _ _ _
    obtain ⟨hshape, hrepetitions, hcount⟩ := RoundLog.counts_recordAll hfull events
    obtain ⟨hbegun, hselected⟩ := Block.countP_repetitionEvents hcomplete
    have hcells : ∀ policy round path, fresh.Within policy round path →
        log.count policy round path = events.countP (Event.isSelection policy round path) := by
      intro policy round path hwithin
      rw [hcount policy round path hwithin, RoundLog.count_new, Nat.zero_add]
    refine ⟨s', log, hrun, ?_, ?_, ?_⟩
    · rw [hrepetitions, hbegun, hlength]
      exact Nat.zero_add R
    · intro n hn
      obtain ⟨policy, round, path, hwithin, rfl⟩ := (hshape.full hfull).exists_count_eq hn
      have hin : fresh.Within policy round path := hshape.within_iff.mp hwithin
      have hle := (hselected policy hin.policy_lt round hin.round_lt).1 path
      rw [hlength] at hle
      exact (hcells policy round path hin).trans_le hle
    · intro policy hpolicy round hround
      rw [← hlength, ← (hselected policy hpolicy round hround).2]
      apply Finset.sum_congr rfl
      intro path hpath
      exact hcells policy round path ⟨hpolicy, hround, Finset.mem_range.mp hpath⟩

/-- Three repetitions of two rounds of KL-UCB in both modes; nothing of the replay is left after the
first turn. -/
theorem runRepetitions_completes_replay :
    ∃ s : Simulator (KlUcb Float) (Replay Float) ChaCha Float,
      Simulator.new (sourcePaths 2) [KlUcb.new 2 false, KlUcb.new 2 true]
        { (Config.standard : Config Float) with plays := 1 }
        (some (withPathCount 2 [[⟨0, 1, 0⟩], [⟨0, 0.5, 0⟩, ⟨0, 1, 0⟩]])) = .ok s ∧
      Safe (fun p => p.tallies.length = 2) (fun _ => True) s ∧ s.forever = false ∧
      ∃ (s' : Simulator (KlUcb Float) (Replay Float) ChaCha Float) (log : RoundLog Float),
        s.runRepetitions 3 2 (RoundLog.new 2 2 2) = (.ok (.completed 2), s', log) ∧
        log.repetitions = 3 ∧ ∑ path ∈ Finset.range 2, log.count 1 1 path = 3 := by
  have hvalid : ∀ p ∈ ([KlUcb.new 2 false, KlUcb.new 2 true] : List (KlUcb Float)),
      p.tallies.length = 2 := by
    simp [KlUcb.length_new]
  obtain ⟨s, hnew⟩ : ∃ s : Simulator (KlUcb Float) (Replay Float) ChaCha Float,
      Simulator.new (sourcePaths 2) [KlUcb.new 2 false, KlUcb.new 2 true]
        { (Config.standard : Config Float) with plays := 1 }
        (some (withPathCount 2 [[⟨0, 1, 0⟩], [⟨0, 0.5, 0⟩, ⟨0, 1, 0⟩]])) = .ok s := ⟨_, rfl⟩
  have hsafe := safe_replay hnew (KlUcb.reliable .vanilla (show 1 ≤ 2 by decide)) hvalid
  obtain ⟨hpaths, hpolicies, hplays, -, hforever, -⟩ := new_eq_ok hnew
  obtain ⟨-, s', log, hrun, hrepetitions, -, hcounts⟩ :
      (∀ log : History Float, _) ∧ _ := runRepetitions_completes hsafe hforever 3 2
  rw [hpaths, hpolicies] at hrun hcounts
  rw [hplays] at hcounts
  exact ⟨s, hnew, hsafe, hforever, s', log, hrun, hrepetitions, hcounts 1 (by decide) 1 (by decide)⟩

end Simulator

end PathSelection
