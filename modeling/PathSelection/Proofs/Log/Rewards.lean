import Mathlib.Data.List.FinRange
import PathSelection.Proofs.Log.Table

namespace PathSelection

/-- The four quantities of a value, in the order in which they are written. -/
def RoundReward.quantity {α : Type} (r : RoundReward α) (s : Fin 4) : α :=
  match s with
  | 0 => r.oracle
  | 1 => r.reward
  | 2 => r.regret
  | 3 => r.violation

namespace RewardLog

section Cells

variable {α : Type} [Scalar α] {log : RewardLog α}

/-- The logs that arise from events and from other logs. A merge that fails changes nothing. -/
inductive Reachable : RewardLog α → Prop
  | new (policies rounds : Nat) : Reachable (RewardLog.new policies rounds)
  | record {log : RewardLog α} (e : Event α) : Reachable log → Reachable (Recorder.record e log)
  | merge {log other merged : RewardLog α} :
    Reachable log → Reachable other → log.merge other = .ok merged → Reachable merged

/-- A log that has all cells of its shape. -/
def Full (log : RewardLog α) : Prop := log.cells.size = log.policies * log.rounds

theorem Full.record (h : Full log) (e : Event α) : Full (Recorder.record e log) := by
  cases e with
  | rewarded policy round reward =>
    change Full (log.recordReward policy round reward)
    unfold recordReward
    split
    · exact Array.size_modify.trans h
    · exact h
  | _ => exact h

theorem Full.merge (h : Full log) {other merged : RewardLog α}
    (hmerge : log.merge other = .ok merged) : Full merged := by
  unfold RewardLog.merge at hmerge
  split at hmerge
  · obtain rfl := Except.ok.inj hmerge
    exact Array.size_mapIdx.trans h
  · exact absurd hmerge (by simp)

theorem Reachable.full (h : Reachable log) : Full log := by
  induction h with
  | new policies rounds => exact Array.size_replicate
  | record e _ ih => exact ih.record e
  | merge _ _ hmerge ih _ => exact ih.merge hmerge

theorem shape_record (e : Event α) (log : RewardLog α) :
    (Recorder.record e log : RewardLog α).policies = log.policies ∧
      (Recorder.record e log : RewardLog α).rounds = log.rounds := by
  cases e with
  | rewarded policy round reward =>
    change (log.recordReward policy round reward).policies = _ ∧
      (log.recordReward policy round reward).rounds = _
    unfold recordReward
    split <;> exact ⟨rfl, rfl⟩
  | _ => exact ⟨rfl, rfl⟩

theorem repetitions_record (e : Event α) (log : RewardLog α) :
    (Recorder.record e log : RewardLog α).repetitions =
      log.repetitions + if e.isBeginning then 1 else 0 := by
  cases e with
  | rewarded policy round reward =>
    change (log.recordReward policy round reward).repetitions = _
    unfold recordReward
    split <;> rfl
  | _ => rfl

/-- A log after some more events: it has the shape that it had, and one more repetition for each
beginning. -/
theorem repetitions_recordAll (events : List (Event α)) (log : RewardLog α) :
    (Recorder.recordAll events log).policies = log.policies ∧
      (Recorder.recordAll events log).rounds = log.rounds ∧
      (Recorder.recordAll events log).repetitions =
        log.repetitions + events.countP Event.isBeginning := by
  induction events generalizing log with
  | nil => exact ⟨rfl, rfl, rfl⟩
  | cons e events ih =>
    obtain ⟨hpolicies, hrounds⟩ := shape_record e log
    obtain ⟨hpolicies', hrounds', hrepetitions⟩ := ih (Recorder.record e log)
    refine ⟨hpolicies'.trans hpolicies, hrounds'.trans hrounds, ?_⟩
    rw [Recorder.recordAll_cons, hrepetitions, repetitions_record, List.countP_cons]
    omega

omit [Scalar α] in
theorem Full.exists_get? (h : Full log) {policy round : Nat} (hpolicy : policy < log.policies)
    (hround : round < log.rounds) : ∃ r, log.get? policy round = some r := by
  have hcell : policy * log.rounds + round < log.cells.size := h ▸ index_lt hpolicy hround
  refine ⟨log.cells[policy * log.rounds + round], ?_⟩
  unfold get?
  rw [if_pos ⟨hpolicy, hround⟩, Array.getElem?_eq_getElem hcell]

omit [Scalar α] in
/-- No two pairs of a policy and a round share a cell. -/
theorem cell_inj {log : RewardLog α} {policy policy' round round' : Nat}
    (hround : round < log.rounds) (hround' : round' < log.rounds)
    (heq : policy' * log.rounds + round' = policy * log.rounds + round) :
    policy' = policy ∧ round' = round := by
  obtain ⟨hmod, hdiv⟩ := (index_eq_iff policy hround).mpr heq
  obtain ⟨hmod', hdiv'⟩ := (index_eq_iff policy' hround').mpr rfl
  exact ⟨hdiv'.symm.trans hdiv, hmod'.symm.trans hmod⟩

/-- A value reaches the cell of its policy and its round, and no other one. -/
theorem get?_recordReward (policy' round' : Nat) (reward : RoundReward α) (policy round : Nat) :
    (log.recordReward policy' round' reward).get? policy round =
      if policy' = policy ∧ round' = round then (log.get? policy round).map (· + reward)
      else log.get? policy round := by
  unfold recordReward
  split
  · next hin' =>
    unfold get?
    dsimp only
    by_cases hin : policy < log.policies ∧ round < log.rounds
    · rw [if_pos hin, if_pos hin, Array.getElem?_modify]
      by_cases hcell : policy' * log.rounds + round' = policy * log.rounds + round
      · rw [if_pos hcell, if_pos (cell_inj hin.2 hin'.2 hcell)]
      · rw [if_neg hcell, if_neg]
        rintro ⟨rfl, rfl⟩
        exact hcell rfl
    · rw [if_neg hin, if_neg hin, Option.map_none, ite_self]
  · next hout =>
    split
    · next hsame =>
      have hnone : log.get? policy round = none := if_neg (hsame.1 ▸ hsame.2 ▸ hout)
      rw [hnone, Option.map_none]
    · rfl

end Cells

section Sums

variable {α : Type} [Scalar α] (log : RewardLog α)

/-- The sum of a policy over the given number of rounds. -/
def sumOf (policy count : Nat) : RoundReward α :=
  (List.range count).foldl (fun sum t =>
    match log.get? policy t with
    | some r => sum + r
    | none => sum) RoundReward.zero

/-- The sums of the first policies. -/
def sumsOf (policies count : Nat) : List (RoundReward α) :=
  (List.range policies).map fun p => log.sumOf p count

theorem sumOf_succ (policy count : Nat) :
    log.sumOf policy (count + 1) =
      match log.get? policy count with
      | some r => log.sumOf policy count + r
      | none => log.sumOf policy count := by
  unfold sumOf
  rw [List.range_succ, List.foldl_append]
  rfl

theorem accumulate_sumsOf (policies round : Nat) :
    log.accumulate round (log.sumsOf policies round) = log.sumsOf policies (round + 1) := by
  unfold accumulate sumsOf
  apply List.ext_getElem
  · rw [List.length_mapIdx, List.length_map, List.length_map]
  · intro p _ _
    rw [List.getElem_mapIdx, List.getElem_map, List.getElem_map, List.getElem_range]
    exact (log.sumOf_succ p round).symm

theorem sumsOf_zero (policies : Nat) :
    log.sumsOf policies 0 = List.replicate policies RoundReward.zero :=
  List.eq_replicate_iff.mpr ⟨by simp [sumsOf], by simp [sumsOf, sumOf]⟩

/-- Up to a round of the log, the sum over all rounds up to it. -/
theorem average_sumOf {policy round : Nat} (hround : round < log.rounds) :
    (log.sumOf policy (round + 1)).average log.repetitions = log.cumulative policy round := by
  have hlast : Nat.min round (log.rounds - 1) = round := Nat.min_eq_left (by omega)
  unfold cumulative total
  rw [hlast]
  rfl

theorem rowsFrom_sumsOf [NumberText α] (policies count round : Nat) :
    log.rowsFrom (log.sumsOf policies round) count round = (List.range count).map fun k =>
      toString (round + k + 1) ::
        (log.rowValues (log.sumsOf policies (round + k + 1))).map (NumberText.fixed 6) := by
  -- By induction on the rows still to come: the sums handed on are those over one round more.
  induction count generalizing round with
  | zero => rfl
  | succ count ih =>
    unfold rowsFrom
    dsimp only
    rw [accumulate_sumsOf, ih, List.range_succ_eq_map, List.map_cons, List.map_map]
    simp only [Function.comp_def, Nat.add_zero, Nat.succ_eq_add_one, Nat.add_assoc, Nat.add_comm 1]

omit [Scalar α] in
theorem length_header (names : List String) :
    (log.header names).length = names.length + 3 := by
  simp [header]

variable {log}

/-- A row lists each quantity for all policies. -/
theorem rowValues_sumsOf {round : Nat} (hround : round < log.rounds) (policies : Nat) :
    log.rowValues (log.sumsOf policies (round + 1)) = (List.finRange 4).flatMap fun s =>
      (List.range policies).map fun p => (log.cumulative p round).quantity s := by
  unfold rowValues sumsOf
  simp only [List.map_map, Function.comp_def, log.average_sumOf hround]
  simp [List.finRange_succ, RoundReward.quantity]

theorem length_rowValues_sumsOf (policies count : Nat) :
    (log.rowValues (log.sumsOf policies count)).length = 4 * policies := by
  simp only [rowValues, sumsOf, List.length_append, List.length_map, List.length_range]
  omega

theorem getElem?_rowValues_sumsOf {round policies p : Nat} (hround : round < log.rounds)
    (s : Fin 4) (hp : p < policies) :
    (log.rowValues (log.sumsOf policies (round + 1)))[s * policies + p]? =
      some ((log.cumulative p round).quantity s) := by
  rw [rowValues_sumsOf hround, getElem?_flatMap_of_length (fun s _ => by simp) hp,
    List.getElem?_eq_getElem (by simp), List.getElem_finRange, Option.bind_some,
    List.getElem?_map, List.getElem?_range hp]
  rfl

end Sums

section Print

variable {log : RewardLog Float} {names : List String}

theorem lines_eq (log : RewardLog Float) (names : List String) :
    log.lines names = log.header names ++ (List.range log.rounds).map fun t =>
      rowText t (log.rowValues (log.sumsOf (Nat.min names.length log.policies) (t + 1))) := by
  unfold lines
  dsimp only
  rw [← log.sumsOf_zero, rowsFrom_sumsOf, List.map_map]
  simp only [Function.comp_def, Nat.zero_add]
  rfl

theorem header_eq (log : RewardLog Float) (names : List String) :
    log.header names = headerLines "#averaged result over " " simulations." "#policy "
      ["oracle", "reward", "regret", "violation"] names log.repetitions := rfl

/-- The text of a log has a row for each round, with all quantities of the policies that have a
name. They belong to no path, so that each policy has one column. -/
theorem isTable_render (log : RewardLog Float) (hnames : ∀ name ∈ names, '\n' ∉ name.toList) :
    IsTable (log.header names) log.rounds (fun t =>
      IsRow (Nat.min names.length log.policies) 1 (fun s p _ => (log.cumulative p t).quantity s) t)
      (log.render names) := by
  unfold render
  rw [lines_eq]
  apply isTable_join
  · rw [header_eq]
    exact newline_not_mem_headerLines (by decide) (by decide) (by decide) (by decide) hnames _
  · intro t ht
    apply isRow_of_values
    · rw [length_rowValues_sumsOf, Nat.mul_one]
    · intro s p i hp hi
      obtain rfl : i = 0 := Nat.lt_one_iff.mp hi
      rw [Nat.mul_one, Nat.add_zero]
      exact getElem?_rowValues_sumsOf ht s hp

/-- The text of a log and its answers agree. Every cell that belongs to a policy and a round is
there. Below a line for each name and three more there is a row for each round. Its fields are the
number of the round and the four quantities, one after the other, each for all policies that have a
name, with the values that the log answers for the policy and the round. -/
theorem render_cumulative (hlog : Reachable log)
    (hnames : ∀ name ∈ names, '\n' ∉ name.toList) :
    (∀ p < log.policies, ∀ t < log.rounds, ∃ r, log.get? p t = some r) ∧
      ∃ rows : List (List Char),
        (log.render names).toList.splitOn '\n' =
          (log.header names).map String.toList ++ rows ++ [[]] ∧
        (log.header names).length = names.length + 3 ∧ rows.length = log.rounds ∧
        ∀ t row, rows[t]? = some row →
          let policies := Nat.min names.length log.policies
          let fields := row.splitOn ' '
          fields.length = 1 + 4 * policies ∧ fields[0]? = some (toString (t + 1)).toList ∧
          ∀ (s : Fin 4) (p : Nat), p < policies → fields[1 + s * policies + p]? =
            some (NumberText.fixed 6 ((log.cumulative p t).quantity s)).toList := by
  refine ⟨fun p hp t ht => hlog.full.exists_get? hp ht, ?_⟩
  obtain ⟨rows, htext, hlength, hrows⟩ := log.isTable_render hnames
  refine ⟨rows, htext, length_header log names, hlength, fun t row hrow => ?_⟩
  intro policies fields
  have hfields : IsRow policies 1 (fun s p _ => (log.cumulative p t).quantity s) t fields :=
    hrows t row hrow
  refine ⟨?_, hfields.number_eq, fun s p hp => ?_⟩
  · rw [hfields.length_eq, Nat.mul_one]
  · have hcell := hfields.cell_eq s p 0 hp Nat.one_pos
    rw [Nat.mul_one, Nat.add_zero, ← Nat.add_assoc] at hcell
    exact hcell

/-- A log of two policies and two rounds, after one repetition has begun and one round was
valued. -/
theorem render_cumulative_valued :
    let log : RewardLog Float := Recorder.record (.rewarded 1 0 ⟨2, 1, 1, -1⟩ : Event Float)
      (Recorder.record (.began : Event Float) (RewardLog.new 2 2 : RewardLog Float))
    Reachable log ∧ (∀ name ∈ ["A", "B"], '\n' ∉ name.toList) ∧
      ∃ rows : List (List Char),
        (log.render ["A", "B"]).toList.splitOn '\n' =
          (log.header ["A", "B"]).map String.toList ++ rows ++ [[]] ∧
        rows.length = 2 ∧
        ∀ (t : Nat) (row : List Char), rows[t]? = some row → (row.splitOn ' ')[6]? =
          some (NumberText.fixed 6 (log.cumulative 1 t).regret).toList := by
  intro log
  have hlog : Reachable log := .record _ (.record _ (.new 2 2))
  have hnames : ∀ name ∈ ["A", "B"], '\n' ∉ name.toList := by decide
  obtain ⟨-, rows, htext, -, hlength, hrows⟩ := render_cumulative hlog hnames
  exact ⟨hlog, hnames, rows, htext, hlength, fun t row hrow =>
    (hrows t row hrow).2.2 2 1 (by decide)⟩

end Print

end RewardLog

end PathSelection
