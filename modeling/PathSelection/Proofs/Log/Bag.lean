import Mathlib
import PathSelection.Proofs.Log.Counts
import PathSelection.Proofs.Reals

namespace PathSelection

namespace Event

variable {α : Type}

/-- The measurement of a path by a policy in a round, if the event is one. -/
def measurement? (policy round path : Nat) : Event α → Option (Metric α)
  | .measured p t i metric => if p = policy ∧ t = round ∧ i = path then some metric else none
  | _ => none

end Event

/-- The sum of measurements, signal by signal. -/
noncomputable def Metric.sum (metrics : Multiset (Metric ℝ)) : Metric ℝ :=
  ⟨(metrics.map Metric.latency).sum, (metrics.map Metric.bandwidth).sum,
    (metrics.map Metric.loss).sum⟩

theorem Metric.sum_zero : Metric.sum 0 = Metric.zero := by
  unfold Metric.sum Metric.zero
  rw [Scalar.zero_real]
  rfl

theorem Metric.sum_add (metrics more : Multiset (Metric ℝ)) :
    Metric.sum (metrics + more) = Metric.sum metrics + Metric.sum more := by
  unfold Metric.sum
  simp only [Multiset.map_add, Multiset.sum_add]
  rfl

theorem Metric.sum_cons (metric : Metric ℝ) (metrics : Multiset (Metric ℝ)) :
    Metric.sum (metric ::ₘ metrics) = Metric.sum metrics + metric := by
  rw [← Multiset.singleton_add, add_comm, sum_add]
  unfold Metric.sum
  simp only [Multiset.map_singleton, Multiset.sum_singleton]

attribute [ext] RoundLog

namespace RoundLog

section Cells

variable {α : Type} [Scalar α] {log : RoundLog α} {policy round path : Nat}

/-- The sum of what a policy measured on a path in a round. -/
def total (log : RoundLog α) (policy round path : Nat) : Metric α :=
  match log.cell? policy round path with
  | some c => log.metrics.getD c Metric.zero
  | none => Metric.zero

/-- A log that takes in events and has all cells of its shape, for counts and for sums. -/
structure Whole (log : RoundLog α) : Prop extends Full log where
  size_metrics : log.metrics.size = log.policies * log.rounds * log.paths

omit [Scalar α] in
theorem Full.count_eq (h : Full log) (hwithin : log.Within policy round path) :
    log.count policy round path =
      log.selected.getD ((policy * log.rounds + round) * log.paths + path) 0 := by
  unfold count
  rw [h.cell?_eq hwithin]

theorem Full.total_eq (h : Full log) (hwithin : log.Within policy round path) :
    log.total policy round path =
      log.metrics.getD ((policy * log.rounds + round) * log.paths + path) Metric.zero := by
  unfold total
  rw [h.cell?_eq hwithin]

omit [Scalar α] in
theorem within_of_shape {other : RoundLog α} (hpolicies : other.policies = log.policies)
    (hrounds : other.rounds = log.rounds) (hpaths : other.paths = log.paths)
    (h : log.Within policy round path) : other.Within policy round path :=
  ⟨hpolicies ▸ h.policy_lt, hrounds ▸ h.round_lt, hpaths ▸ h.path_lt⟩

omit [Scalar α] in
theorem cell?_eq_none (h : ¬ log.Within policy round path) :
    log.cell? policy round path = none := by
  rw [Option.eq_none_iff_forall_not_mem]
  intro c hc
  exact h (within_of_cell? hc).1

omit [Scalar α] in
/-- No two triples share a cell. -/
theorem cell?_inj {policy' round' path' c : Nat} (h : log.cell? policy round path = some c)
    (h' : log.cell? policy' round' path' = some c) :
    policy = policy' ∧ round = round' ∧ path = path' := by
  obtain ⟨hin, rfl⟩ := within_of_cell? h
  obtain ⟨hin', heq⟩ := within_of_cell? h'
  exact cell_inj hin hin' heq

/-- The metrics of a log after an event. -/
theorem metrics_record (e : Event α) (log : RoundLog α) :
    (Recorder.record e log : RoundLog α).metrics =
      match e with
      | .measured policy round path metric =>
        match log.cell? policy round path with
        | some c => log.metrics.modify c (· + metric)
        | none => log.metrics
      | _ => log.metrics := by
  cases e with
  | began =>
    change log.begin.metrics = _
    unfold begin
    split <;> rfl
  | selected policy round path =>
    change (log.recordSelected policy round path).metrics = _
    unfold recordSelected
    split <;> rfl
  | measured policy round path metric =>
    change (log.recordMeasurement policy round path metric).metrics = _
    unfold recordMeasurement
    dsimp only
    cases log.cell? policy round path <;> rfl
  | _ => rfl

theorem Whole.record (h : Whole log) (e : Event α) :
    Whole (Recorder.record e log : RoundLog α) := by
  have hsame := sameShape_record e log
  refine ⟨hsame.full h.toFull, ?_⟩
  rw [hsame.policies_eq, hsame.rounds_eq, hsame.paths_eq, metrics_record, ← h.size_metrics]
  split
  · split
    · exact Array.size_modify
    · rfl
  · rfl

theorem total_record (h : Whole log) (hwithin : log.Within policy round path) (e : Event α) :
    (Recorder.record e log : RoundLog α).total policy round path =
      match e.measurement? policy round path with
      | some metric => log.total policy round path + metric
      | none => log.total policy round path := by
  have hsame := sameShape_record e log
  have htotal : (Recorder.record e log : RoundLog α).total policy round path =
      (Recorder.record e log : RoundLog α).metrics.getD
        ((policy * log.rounds + round) * log.paths + path) Metric.zero := by
    unfold total
    rw [hsame.cell?_eq, h.cell?_eq hwithin]
  rw [htotal, metrics_record, h.total_eq hwithin]
  cases e with
  | measured policy' round' path' metric =>
    dsimp only [Event.measurement?]
    cases hcell : log.cell? policy' round' path' with
    | none =>
      rw [if_neg]
      rintro ⟨rfl, rfl, rfl⟩
      exact absurd ((h.cell?_eq hwithin).symm.trans hcell) (by simp)
    | some c =>
      obtain ⟨hwithin', rfl⟩ := within_of_cell? hcell
      refine (getD_modify_cell h.size_metrics hwithin hwithin' (· + metric) Metric.zero).trans ?_
      split <;> rfl
  | _ => rfl

/-- An event outside the shape of a log changes nothing. -/
theorem record_of_not_within (h : ¬ log.Within policy round path) (metric : Metric α) :
    Recorder.record (.selected policy round path : Event α) log = log ∧
      Recorder.record (.measured policy round path metric) log = log := by
  constructor
  · change log.recordSelected policy round path = log
    unfold recordSelected
    rw [cell?_eq_none h]
  · change log.recordMeasurement policy round path metric = log
    unfold recordMeasurement
    rw [cell?_eq_none h]

/-- A log of the same shape can be added: repetitions, counts and sums are. -/
theorem merge_eq_ok {other : RoundLog α} (hpolicies : other.policies = log.policies)
    (hrounds : other.rounds = log.rounds) (hpaths : other.paths = log.paths) :
    ∃ merged, log.merge other = .ok merged ∧ SameShape log merged ∧
      merged.metrics.size = log.metrics.size ∧
      merged.repetitions = log.repetitions + other.repetitions ∧
      (∀ c < log.selected.size,
        merged.selected.getD c 0 = log.selected.getD c 0 + other.selected.getD c 0) ∧
      ∀ c < log.metrics.size, c < other.metrics.size →
        merged.metrics.getD c Metric.zero =
          log.metrics.getD c Metric.zero + other.metrics.getD c Metric.zero := by
  unfold RoundLog.merge
  rw [if_pos ⟨hpolicies.symm, hrounds.symm, hpaths.symm⟩]
  refine ⟨_, rfl, ⟨rfl, rfl, rfl, rfl, Array.size_mapIdx⟩, Array.size_mapIdx, rfl, ?_, ?_⟩
  · intro c hc
    simp [Array.getD_eq_getD_getElem?, hc]
  · intro c hc hc'
    simp [Array.getD_eq_getD_getElem?, hc, hc']

/-- Adds another log in place. One that cannot be added changes nothing. -/
def absorb (log other : RoundLog α) : Except (Error α) Unit × RoundLog α :=
  match log.merge other with
  | .ok merged => (.ok (), merged)
  | .error e => (.error e, log)

theorem absorb_of_shape_ne {other : RoundLog α}
    (h : (other.policies, other.rounds, other.paths) ≠ (log.policies, log.rounds, log.paths)) :
    log.absorb other = (.error (.lengthMismatch log.selected.size other.selected.size), log) := by
  have hmerge : log.merge other =
      .error (.lengthMismatch log.selected.size other.selected.size) := by
    unfold RoundLog.merge
    rw [if_neg]
    rintro ⟨hpolicies, hrounds, hpaths⟩
    exact h (by rw [hpolicies, hrounds, hpaths])
  rw [absorb, hmerge]

end Cells

/-- A log of a shape that holds a bag of events. -/
structure Holds (policies rounds paths : ℕ) (bag : Multiset (Event ℝ)) (log : RoundLog ℝ) :
    Prop where
  whole : Whole log
  policies_eq : log.policies = policies
  rounds_eq : log.rounds = rounds
  paths_eq : log.paths = paths
  repetitions_eq : log.repetitions = bag.countP fun e => e.isBeginning
  count_eq : ∀ {policy round path}, log.Within policy round path →
    log.count policy round path = bag.countP fun e => e.isSelection policy round path
  total_eq : ∀ {policy round path}, log.Within policy round path →
    log.total policy round path = Metric.sum (bag.filterMap (Event.measurement? policy round path))

variable {policies rounds paths : ℕ} {bag more : Multiset (Event ℝ)} {log other : RoundLog ℝ}

theorem Holds.within_iff (h : Holds policies rounds paths bag log) {policy round path : ℕ} :
    log.Within policy round path ↔ policy < policies ∧ round < rounds ∧ path < paths := by
  rw [← h.policies_eq, ← h.rounds_eq, ← h.paths_eq]
  exact ⟨fun h => ⟨h.policy_lt, h.round_lt, h.path_lt⟩, fun h => ⟨h.1, h.2.1, h.2.2⟩⟩

theorem holds_new (policies rounds paths : ℕ) :
    Holds policies rounds paths 0 (RoundLog.new policies rounds paths) where
  whole := ⟨full_new policies rounds paths, Array.size_replicate⟩
  policies_eq := rfl
  rounds_eq := rfl
  paths_eq := rfl
  repetitions_eq := rfl
  count_eq _ := count_new _ _ _ _ _ _
  total_eq hwithin := by
    rw [(full_new policies rounds paths).total_eq hwithin, Multiset.filterMap_zero, Metric.sum_zero]
    unfold new
    rw [Array.getD_eq_getD_getElem?, Array.getElem?_replicate]
    split <;> rfl

theorem Holds.record (h : Holds policies rounds paths bag log) (e : Event ℝ) :
    Holds policies rounds paths (e ::ₘ bag) (Recorder.record e log) := by
  have hsame := sameShape_record e log
  refine ⟨h.whole.record e, hsame.policies_eq.trans h.policies_eq,
    hsame.rounds_eq.trans h.rounds_eq, hsame.paths_eq.trans h.paths_eq, ?_, fun hwithin => ?_,
    fun hwithin => ?_⟩
  · rw [repetitions_record h.whole.toFull, h.repetitions_eq, Multiset.countP_cons]
  · have hin := hsame.within_iff.mp hwithin
    rw [count_record h.whole.toFull hin, h.count_eq hin, Multiset.countP_cons]
  · have hin := hsame.within_iff.mp hwithin
    rw [total_record h.whole hin, h.total_eq hin]
    cases hmetric : e.measurement? _ _ _ with
    | none => rw [Multiset.filterMap_cons_none _ _ hmetric]
    | some metric => rw [Multiset.filterMap_cons_some _ _ _ hmetric, Metric.sum_cons]

/-- A log of the same shape can be added, and its bag comes to that of the log. -/
theorem Holds.merge (h : Holds policies rounds paths bag log)
    (h' : Holds policies rounds paths more other) :
    ∃ merged, log.merge other = .ok merged ∧
      Holds policies rounds paths (bag + more) merged := by
  have hpolicies := h'.policies_eq.trans h.policies_eq.symm
  have hrounds := h'.rounds_eq.trans h.rounds_eq.symm
  have hpaths := h'.paths_eq.trans h.paths_eq.symm
  obtain ⟨merged, hmerge, hsame, hsize, hrepetitions, hcounts, htotals⟩ :=
    merge_eq_ok hpolicies hrounds hpaths
  have hwhole : Whole merged := by
    refine ⟨hsame.full h.whole.toFull, ?_⟩
    rw [hsize, h.whole.size_metrics, hsame.policies_eq, hsame.rounds_eq, hsame.paths_eq]
  refine ⟨merged, hmerge, hwhole, hsame.policies_eq.trans h.policies_eq,
    hsame.rounds_eq.trans h.rounds_eq, hsame.paths_eq.trans h.paths_eq, ?_, ?_, ?_⟩
  · rw [hrepetitions, h.repetitions_eq, h'.repetitions_eq, Multiset.countP_add]
  · intro policy round path hwithin
    have hin := hsame.within_iff.mp hwithin
    have hin' := within_of_shape hpolicies hrounds hpaths hin
    rw [hwhole.count_eq hwithin, hsame.rounds_eq, hsame.paths_eq,
      hcounts _ (h.whole.size_selected ▸ cell_lt hin), ← h.whole.count_eq hin, ← hrounds, ← hpaths,
      ← h'.whole.count_eq hin', h.count_eq hin, h'.count_eq hin', Multiset.countP_add]
  · intro policy round path hwithin
    have hin := hsame.within_iff.mp hwithin
    have hin' := within_of_shape hpolicies hrounds hpaths hin
    have hcell := h'.whole.size_metrics ▸ cell_lt hin'
    rw [hrounds, hpaths] at hcell
    rw [hwhole.total_eq hwithin, hsame.rounds_eq, hsame.paths_eq,
      htotals _ (h.whole.size_metrics ▸ cell_lt hin) hcell, ← h.whole.total_eq hin, ← hrounds,
      ← hpaths, ← h'.whole.total_eq hin', h.total_eq hin, h'.total_eq hin',
      Multiset.filterMap_add, Metric.sum_add]

/-- Two logs of one shape that hold the same events are the same. -/
theorem Holds.unique (h : Holds policies rounds paths bag log)
    (h' : Holds policies rounds paths bag other) : log = other := by
  have hpolicies := h.policies_eq.trans h'.policies_eq.symm
  have hrounds := h.rounds_eq.trans h'.rounds_eq.symm
  have hpaths := h.paths_eq.trans h'.paths_eq.symm
  -- Every cell belongs to a triple, and there both logs have the count and the sum of the bag.
  have hcells {c : ℕ} (hc : c < log.policies * log.rounds * log.paths) :
      log.selected.getD c 0 = other.selected.getD c 0 ∧
        log.metrics.getD c Metric.zero = other.metrics.getD c Metric.zero := by
    obtain ⟨policy, round, path, hin, rfl⟩ := exists_within hc
    have hin' := within_of_shape hpolicies.symm hrounds.symm hpaths.symm hin
    have hcount := (h.count_eq hin).trans (h'.count_eq hin').symm
    have htotal := (h.total_eq hin).trans (h'.total_eq hin').symm
    rw [h.whole.count_eq hin, h'.whole.count_eq hin', ← hrounds, ← hpaths] at hcount
    rw [h.whole.total_eq hin, h'.whole.total_eq hin', ← hrounds, ← hpaths] at htotal
    exact ⟨hcount, htotal⟩
  have hselected : log.selected = other.selected := by
    apply Array.ext
    · rw [h.whole.size_selected, h'.whole.size_selected, hpolicies, hrounds, hpaths]
    · intro c hc hc'
      rw [Array.getElem_eq_getD 0, Array.getElem_eq_getD 0]
      exact (hcells (h.whole.size_selected ▸ hc)).1
  have hmetrics : log.metrics = other.metrics := by
    apply Array.ext
    · rw [h.whole.size_metrics, h'.whole.size_metrics, hpolicies, hrounds, hpaths]
    · intro c hc hc'
      rw [Array.getElem_eq_getD Metric.zero, Array.getElem_eq_getD Metric.zero]
      exact (hcells (h.whole.size_metrics ▸ hc)).2
  have hrepetitions := h.repetitions_eq.trans h'.repetitions_eq.symm
  have henabled := h.whole.enabled.trans h'.whole.enabled.symm
  exact RoundLog.ext hpolicies hrounds hpaths hrepetitions henabled hselected hmetrics

/-- A log that holds a bag answers with the counts and the sums over the bag, divided by the number
of repetitions. -/
theorem Holds.answers (h : Holds policies rounds paths bag log) {policy round path : ℕ}
    (hin : log.Within policy round path) (hpos : 0 < log.repetitions) :
    let n : ℝ := log.repetitions
    let sum := Metric.sum (bag.filterMap (Event.measurement? policy round path))
    log.selectionFrequency policy round path * n =
        bag.countP (fun e => e.isSelection policy round path) ∧
      log.meanMetric policy round path = ⟨sum.latency / n, sum.bandwidth / n, sum.loss / n⟩ := by
  have hcell := h.whole.cell?_eq hin
  have hne : log.repetitions ≠ 0 := hpos.ne'
  constructor
  · rw [← h.count_eq hin, h.whole.count_eq hin]
    unfold selectionFrequency
    rw [hcell]
    dsimp only
    rw [if_neg hne]
    exact div_mul_cancel₀ _ (Nat.cast_ne_zero.mpr hne)
  · rw [← h.total_eq hin, h.whole.total_eq hin]
    unfold meanMetric Metric.average
    rw [hcell]
    exact if_neg hne

theorem answers_of_not_within {policy round path : ℕ} (h : ¬ log.Within policy round path) :
    log.selectionFrequency policy round path = 0 ∧
      log.meanMetric policy round path = Metric.zero := by
  unfold selectionFrequency meanMetric
  rw [cell?_eq_none h]
  exact ⟨Scalar.zero_real, rfl⟩

end RoundLog

/-- How a log came about: events are recorded, and logs that came about in the same way are added
to it. -/
inductive Recording (α : Type) where
  | empty
  | record (recording : Recording α) (e : Event α)
  | merge (recording other : Recording α)

namespace Recording

variable {α : Type}

/-- All events that were recorded, here or in a log that was added. -/
def bag : Recording α → Multiset (Event α)
  | empty => 0
  | record recording e => e ::ₘ recording.bag
  | merge recording other => recording.bag + other.bag

/-- The log of the given shape. -/
def log [Scalar α] (policies rounds paths : Nat) : Recording α → RoundLog α
  | empty => RoundLog.new policies rounds paths
  | record recording e => Recorder.record e (recording.log policies rounds paths)
  | merge recording other =>
    ((recording.log policies rounds paths).absorb (other.log policies rounds paths)).2

theorem holds_log (policies rounds paths : ℕ) (recording : Recording ℝ) :
    (recording.log policies rounds paths).Holds policies rounds paths recording.bag := by
  induction recording with
  | empty => exact RoundLog.holds_new policies rounds paths
  | record recording e ih => exact ih.record e
  | merge recording other ih ih' =>
    obtain ⟨merged, hmerge, hmerged⟩ := ih.merge ih'
    rw [log, RoundLog.absorb, hmerge]
    exact hmerged

/-- A log of any shape is its bag of events. It has a repetition for each beginning; in its shape it
answers with the counts and sums over the events of exactly one triple, and outside of it with zero.
No two triples share a cell, and events outside the shape change nothing. A log of the same shape
can always be added, the order in which events and logs came does not matter, and a log of another
shape is refused and changes nothing. -/
theorem log_refines_bag (policies rounds paths : ℕ) (recording : Recording ℝ) :
    let log := recording.log policies rounds paths
    log.repetitions = recording.bag.countP (fun e => e.isBeginning) ∧
    (∀ policy < policies, ∀ round < rounds, ∀ path < paths, 0 < log.repetitions →
      let n : ℝ := log.repetitions
      let sum := Metric.sum (recording.bag.filterMap (Event.measurement? policy round path))
      log.selectionFrequency policy round path * n =
          recording.bag.countP (fun e => e.isSelection policy round path) ∧
        log.meanMetric policy round path = ⟨sum.latency / n, sum.bandwidth / n, sum.loss / n⟩) ∧
    (∀ policy round path, ¬ (policy < policies ∧ round < rounds ∧ path < paths) →
      log.selectionFrequency policy round path = 0 ∧
        log.meanMetric policy round path = ⟨0, 0, 0⟩ ∧
        Recorder.record (.selected policy round path : Event ℝ) log = log ∧
        ∀ metric : Metric ℝ, Recorder.record (.measured policy round path metric) log = log) ∧
    (∀ policy round path policy' round' path' c, log.cell? policy round path = some c →
      log.cell? policy' round' path' = some c →
        policy = policy' ∧ round = round' ∧ path = path') ∧
    (∀ other : Recording ℝ, log.absorb (other.log policies rounds paths) =
      (.ok (), (recording.merge other).log policies rounds paths)) ∧
    (∀ other : Recording ℝ, other.bag = recording.bag →
      other.log policies rounds paths = log) ∧
    ∀ other : RoundLog ℝ,
      (other.policies, other.rounds, other.paths) ≠ (policies, rounds, paths) →
        log.absorb other =
          (.error (.lengthMismatch log.selected.size other.selected.size), log) := by
  intro log
  have hholds : log.Holds policies rounds paths recording.bag :=
    holds_log policies rounds paths recording
  refine ⟨hholds.repetitions_eq, ?_, ?_, ?_, ?_, ?_, ?_⟩
  · intro policy hpolicy round hround path hpath hpos
    exact hholds.answers (hholds.within_iff.mpr ⟨hpolicy, hround, hpath⟩) hpos
  · intro policy round path hout
    have hout' : ¬ log.Within policy round path := hholds.within_iff.not.mpr hout
    obtain ⟨hfrequency, hmean⟩ := RoundLog.answers_of_not_within hout'
    refine ⟨hfrequency, ?_, (RoundLog.record_of_not_within hout' Metric.zero).1, fun metric =>
      (RoundLog.record_of_not_within hout' metric).2⟩
    rw [hmean, Metric.zero, Scalar.zero_real]
  · intro policy round path policy' round' path' c hcell hcell'
    exact RoundLog.cell?_inj hcell hcell'
  · intro other
    obtain ⟨merged, hmerge, -⟩ := hholds.merge (holds_log policies rounds paths other)
    have habsorb : log.absorb (other.log policies rounds paths) = (.ok (), merged) := by
      rw [RoundLog.absorb, hmerge]
    exact habsorb.trans (Prod.ext rfl (congrArg Prod.snd habsorb).symm)
  · intro other hbag
    exact (hbag ▸ holds_log policies rounds paths other).unique hholds
  · intro other hshape
    rw [← hholds.policies_eq, ← hholds.rounds_eq, ← hholds.paths_eq] at hshape
    exact RoundLog.absorb_of_shape_ne hshape

/-- A repetition in which policy 1 selects path 1, and one in which it selects a path that does not
exist. -/
noncomputable def twoRepetitions : Recording ℝ :=
  .merge
    (.record (.record (.record .empty .began) (.measured 1 0 1 ⟨1, 1, 0⟩)) (.selected 1 0 1))
    (.record (.record (.record .empty (.selected 1 0 5)) .began) (.measured 1 0 1 ⟨3, 0, 0⟩))

/-- The two repetitions in a log for two policies, one round and two paths. -/
theorem log_refines_bag_two :
    let log := twoRepetitions.log 2 1 2
    log.repetitions = 2 ∧ log.selectionFrequency 1 0 1 * 2 = 1 ∧
      log.meanMetric 1 0 1 = ⟨2, 1 / 2, 0⟩ ∧ log.selectionFrequency 1 0 5 = 0 ∧
      log.absorb (RoundLog.new 1 2 2) = (.error (.lengthMismatch 4 4), log) := by
  obtain ⟨hrepetitions, hin, hout, -, -, -, hrefused⟩ := log_refines_bag 2 1 2 twoRepetitions
  have hholds := holds_log 2 1 2 twoRepetitions
  have htwo : (twoRepetitions.log 2 1 2).repetitions = 2 := hrepetitions
  have hsize : (twoRepetitions.log 2 1 2).selected.size = 4 := by
    rw [hholds.whole.size_selected, hholds.policies_eq, hholds.rounds_eq, hholds.paths_eq]
  obtain ⟨hfrequency, hmean⟩ := hin 1 (by decide) 0 (by decide) 1 (by decide) (by rw [htwo]; decide)
  have hone : twoRepetitions.bag.countP (fun e => e.isSelection 1 0 1) = 1 := rfl
  have hsum : Metric.sum (twoRepetitions.bag.filterMap (Event.measurement? 1 0 1)) = ⟨4, 1, 0⟩ := by
    have hmetrics : twoRepetitions.bag.filterMap (Event.measurement? 1 0 1) =
        {⟨1, 1, 0⟩, ⟨3, 0, 0⟩} := rfl
    rw [hmetrics, Metric.sum]
    norm_num
  rw [htwo, hone] at hfrequency
  rw [htwo, hsum] at hmean
  refine ⟨htwo, ?_, ?_, (hout 1 0 5 (by decide)).1, ?_⟩
  · exact_mod_cast hfrequency
  · rw [hmean]
    norm_num
  · have habsorb := hrefused (RoundLog.new 1 2 2) (by decide)
    rw [hsize] at habsorb
    exact habsorb

end Recording

end PathSelection
