import Mathlib.Data.List.GetD
import PathSelection.Log.Round

namespace PathSelection

section Record

variable {τ α : Type} [Recorder τ α]

/-- A record after some more events. -/
def Recorder.recordAll (events : List (Event α)) (log : τ) : τ :=
  events.foldl (fun log e => Recorder.record e log) log

theorem Recorder.recordAll_cons (e : Event α) (events : List (Event α)) (log : τ) :
    recordAll (e :: events) log = recordAll events (Recorder.record e log) := rfl

theorem Recorder.recordAll_append (events more : List (Event α)) (log : τ) :
    recordAll (events ++ more) log = recordAll more (recordAll events log) :=
  List.foldl_append

theorem History.toList_recordAll (events : List (Event α)) (h : History α) :
    (Recorder.recordAll events h).toList = h.toList ++ events := by
  induction events generalizing h with
  | nil => exact (List.append_nil _).symm
  | cons e events ih =>
    rw [Recorder.recordAll_cons, ih, toList_record, List.append_assoc]
    rfl

/-- Records that are kept side by side take in the same events. -/
theorem Recorder.recordAll_pair {υ : Type} [Recorder υ α] (events : List (Event α)) (first : τ)
    (second : υ) :
    recordAll events (first, second) = (recordAll events first, recordAll events second) := by
  induction events generalizing first second with
  | nil => rfl
  | cons e events ih => exact ih (Recorder.record e first) (Recorder.record e second)

end Record

section Table

variable {width row column j : Nat}

/-- The row and the column of an entry of a table, by its number. -/
theorem index_eq_iff (row : Nat) (hcolumn : column < width) :
    j % width = column ∧ j / width = row ↔ j = row * width + column := by
  rw [and_comm, Nat.div_mod_unique (by omega), Nat.mul_comm, Nat.add_comm, eq_comm]
  exact and_iff_left hcolumn

theorem index_lt {rows : Nat} (hrow : row < rows) (hcolumn : column < width) :
    row * width + column < rows * width := by
  calc row * width + column < row * width + width := Nat.add_lt_add_left hcolumn _
    _ = (row + 1) * width := (Nat.succ_mul row width).symm
    _ ≤ rows * width := Nat.mul_le_mul_right width hrow

/-- The layer, the row and the column of an entry of tables one after another, by its number. -/
theorem layer_eq_iff {rows : Nat} (layer : Nat) (hrow : row < rows) (hcolumn : column < width) :
    j % width = column ∧ j / width % rows = row ∧ j / width / rows = layer ↔
      j = (layer * rows + row) * width + column := by
  rw [index_eq_iff layer hrow, index_eq_iff _ hcolumn]

end Table

namespace Event

variable {α : Type}

/-- Whether a repetition begins. -/
def isBeginning : Event α → Bool
  | .began => true
  | _ => false

/-- Whether a policy selects a path in a round. -/
def isSelection (policy round path : Nat) : Event α → Bool
  | .selected p t i => p = policy ∧ t = round ∧ i = path
  | _ => false

end Event

namespace RoundLog

variable {α : Type} {log : RoundLog α} {policy round path : Nat}

/-- How often a policy selected a path in a round. -/
def count (log : RoundLog α) (policy round path : Nat) : Nat :=
  match log.cell? policy round path with
  | some c => log.selected.getD c 0
  | none => 0

/-- The policy, the round and the path of a cell. -/
structure Within (log : RoundLog α) (policy round path : Nat) : Prop where
  policy_lt : policy < log.policies
  round_lt : round < log.rounds
  path_lt : path < log.paths

/-- A log that takes in events and has all cells of its shape. -/
structure Full (log : RoundLog α) : Prop where
  enabled : log.enabled = true
  size_selected : log.selected.size = log.policies * log.rounds * log.paths

theorem Full.cell?_eq (h : Full log) (hwithin : log.Within policy round path) :
    log.cell? policy round path = some ((policy * log.rounds + round) * log.paths + path) := by
  unfold cell?
  rw [if_pos]
  simp [h.enabled, hwithin.policy_lt, hwithin.round_lt, hwithin.path_lt]

theorem within_of_cell? {c : Nat} (h : log.cell? policy round path = some c) :
    log.Within policy round path ∧ c = (policy * log.rounds + round) * log.paths + path := by
  unfold cell? at h
  split at h
  · next hin =>
    simp only [Bool.and_eq_true, decide_eq_true_eq] at hin
    obtain ⟨⟨⟨-, hpolicy⟩, hround⟩, hpath⟩ := hin
    exact ⟨⟨hpolicy, hround, hpath⟩, (Option.some.inj h).symm⟩
  · exact absurd h (by simp)

theorem cell_lt (h : log.Within policy round path) :
    (policy * log.rounds + round) * log.paths + path < log.policies * log.rounds * log.paths :=
  index_lt (index_lt h.policy_lt h.round_lt) h.path_lt

/-- No two triples share a cell. -/
theorem cell_inj {policy' round' path' : Nat} (h : log.Within policy round path)
    (h' : log.Within policy' round' path')
    (heq : (policy * log.rounds + round) * log.paths + path =
      (policy' * log.rounds + round') * log.paths + path') :
    policy = policy' ∧ round = round' ∧ path = path' := by
  obtain ⟨hpath, hround, hpolicy⟩ := (layer_eq_iff _ h'.round_lt h'.path_lt).mpr heq
  obtain ⟨hpath', hround', hpolicy'⟩ := (layer_eq_iff policy h.round_lt h.path_lt).mpr rfl
  exact ⟨hpolicy'.symm.trans hpolicy, hround'.symm.trans hround, hpath'.symm.trans hpath⟩

/-- A table with an entry for each cell, after the entry of one triple was changed. -/
theorem getD_modify_cell {β : Type} {xs : Array β} {policy' round' path' : Nat}
    (hsize : xs.size = log.policies * log.rounds * log.paths) (h : log.Within policy round path)
    (h' : log.Within policy' round' path') (f : β → β) (default : β) :
    (xs.modify ((policy' * log.rounds + round') * log.paths + path') f).getD
        ((policy * log.rounds + round) * log.paths + path) default =
      if policy' = policy ∧ round' = round ∧ path' = path then
        f (xs.getD ((policy * log.rounds + round) * log.paths + path) default)
      else xs.getD ((policy * log.rounds + round) * log.paths + path) default := by
  have hlt := hsize ▸ cell_lt h
  rw [Array.getD_eq_getD_getElem?, Array.getElem?_modify, Array.getD_eq_getD_getElem?,
    Array.getElem?_eq_getElem hlt]
  -- The cell of another triple is another cell.
  by_cases heq : policy' = policy ∧ round' = round ∧ path' = path
  · obtain ⟨rfl, rfl, rfl⟩ := heq
    rw [if_pos rfl, if_pos ⟨rfl, rfl, rfl⟩]
    rfl
  · rw [if_neg fun hcell => heq (cell_inj h' h hcell), if_neg heq]

/-- Every cell is that of some triple. -/
theorem exists_within {c : Nat} (hc : c < log.policies * log.rounds * log.paths) :
    ∃ policy round path, log.Within policy round path ∧
      c = (policy * log.rounds + round) * log.paths + path := by
  have hpaths : 0 < log.paths := Nat.pos_of_ne_zero fun h => by simp [h] at hc
  have hrow : c / log.paths < log.policies * log.rounds :=
    Nat.div_lt_of_lt_mul (Nat.mul_comm _ _ ▸ hc)
  have hrounds : 0 < log.rounds := Nat.pos_of_ne_zero fun h => by simp [h] at hrow
  have hpolicy : c / log.paths / log.rounds < log.policies :=
    Nat.div_lt_of_lt_mul (Nat.mul_comm _ _ ▸ hrow)
  refine ⟨_, _, _, ⟨hpolicy, Nat.mod_lt (c / log.paths) hrounds, Nat.mod_lt c hpaths⟩, ?_⟩
  rw [Nat.div_add_mod', Nat.div_add_mod']

/-- The entries of a full log are the counts of the triples. -/
theorem Full.exists_count_eq (h : Full log) {n : Nat} (hn : n ∈ log.selected) :
    ∃ policy round path, log.Within policy round path ∧ log.count policy round path = n := by
  obtain ⟨c, hc, rfl⟩ := Array.mem_iff_getElem.mp hn
  obtain ⟨policy, round, path, hwithin, heq⟩ := exists_within (h.size_selected ▸ hc)
  refine ⟨policy, round, path, hwithin, ?_⟩
  unfold count
  rw [h.cell?_eq hwithin, ← heq]
  exact (Array.getElem_eq_getD 0).symm

/-- Two states of one log. -/
structure SameShape (log log' : RoundLog α) : Prop where
  enabled_eq : log'.enabled = log.enabled
  policies_eq : log'.policies = log.policies
  rounds_eq : log'.rounds = log.rounds
  paths_eq : log'.paths = log.paths
  size_eq : log'.selected.size = log.selected.size

theorem SameShape.refl (log : RoundLog α) : SameShape log log := ⟨rfl, rfl, rfl, rfl, rfl⟩

theorem SameShape.trans {log' log'' : RoundLog α} (h : SameShape log log')
    (h' : SameShape log' log'') : SameShape log log'' where
  enabled_eq := h'.enabled_eq.trans h.enabled_eq
  policies_eq := h'.policies_eq.trans h.policies_eq
  rounds_eq := h'.rounds_eq.trans h.rounds_eq
  paths_eq := h'.paths_eq.trans h.paths_eq
  size_eq := h'.size_eq.trans h.size_eq

theorem SameShape.full {log' : RoundLog α} (h : SameShape log log') (hfull : Full log) :
    Full log' := by
  refine ⟨h.enabled_eq.trans hfull.enabled, ?_⟩
  rw [h.size_eq, h.policies_eq, h.rounds_eq, h.paths_eq]
  exact hfull.size_selected

theorem SameShape.within_iff {log' : RoundLog α} (h : SameShape log log') :
    log'.Within policy round path ↔ log.Within policy round path := by
  constructor
  · intro hin
    exact ⟨h.policies_eq ▸ hin.policy_lt, h.rounds_eq ▸ hin.round_lt, h.paths_eq ▸ hin.path_lt⟩
  · intro hin
    exact ⟨h.policies_eq ▸ hin.policy_lt, h.rounds_eq ▸ hin.round_lt, h.paths_eq ▸ hin.path_lt⟩

theorem SameShape.cell?_eq {log' : RoundLog α} (h : SameShape log log') :
    log'.cell? policy round path = log.cell? policy round path := by
  unfold cell?
  rw [h.enabled_eq, h.policies_eq, h.rounds_eq, h.paths_eq]

section Record

variable [Scalar α]

theorem full_new (policies rounds paths : Nat) :
    Full (RoundLog.new policies rounds paths : RoundLog α) :=
  ⟨rfl, Array.size_replicate⟩

theorem count_new (policies rounds paths policy round path : Nat) :
    (RoundLog.new policies rounds paths : RoundLog α).count policy round path = 0 := by
  unfold count new
  split
  · rw [Array.getD_eq_getD_getElem?, Array.getElem?_replicate]
    split <;> rfl
  · rfl

theorem sameShape_record (e : Event α) (log : RoundLog α) :
    SameShape log (Recorder.record e log) := by
  cases e with
  | began =>
    change SameShape log log.begin
    unfold begin
    split <;> exact ⟨rfl, rfl, rfl, rfl, rfl⟩
  | selected policy round path =>
    change SameShape log (log.recordSelected policy round path)
    unfold recordSelected
    split
    · exact ⟨rfl, rfl, rfl, rfl, Array.size_modify⟩
    · exact ⟨rfl, rfl, rfl, rfl, rfl⟩
  | measured policy round path metric =>
    change SameShape log (log.recordMeasurement policy round path metric)
    unfold recordMeasurement
    split <;> exact ⟨rfl, rfl, rfl, rfl, rfl⟩
  | _ => exact ⟨rfl, rfl, rfl, rfl, rfl⟩

theorem count_recordSelected (hfull : Full log) (hwithin : log.Within policy round path)
    (policy' round' path' : Nat) :
    (log.recordSelected policy' round' path').count policy round path =
      log.count policy round path +
        if policy' = policy ∧ round' = round ∧ path' = path then 1 else 0 := by
  have hcell := hfull.cell?_eq hwithin
  have hsame : SameShape log (log.recordSelected policy' round' path') :=
    sameShape_record (.selected policy' round' path') log
  unfold count
  rw [hsame.cell?_eq, hcell]
  dsimp only
  unfold recordSelected
  cases hcell' : log.cell? policy' round' path' with
  | none =>
    rw [if_neg]
    · rfl
    · rintro ⟨rfl, rfl, rfl⟩
      exact absurd (hcell.symm.trans hcell') (by simp)
  | some c =>
    obtain ⟨hwithin', rfl⟩ := within_of_cell? hcell'
    refine (getD_modify_cell hfull.size_selected hwithin hwithin' (· + 1) 0).trans ?_
    split <;> rfl

theorem count_record (hfull : Full log) (hwithin : log.Within policy round path) (e : Event α) :
    (Recorder.record e log : RoundLog α).count policy round path =
      log.count policy round path + if e.isSelection policy round path then 1 else 0 := by
  have hsame := sameShape_record e log
  cases e with
  | selected policy' round' path' =>
    refine (count_recordSelected hfull hwithin policy' round' path').trans ?_
    simp only [Event.isSelection, decide_eq_true_eq]
  | began =>
    have hselected : (Recorder.record (.began : Event α) log : RoundLog α).selected =
        log.selected := by
      change log.begin.selected = _
      unfold begin
      split <;> rfl
    unfold count
    rw [hsame.cell?_eq, hselected]
    rfl
  | measured policy' round' path' metric =>
    have hselected : (Recorder.record (.measured policy' round' path' metric : Event α) log :
        RoundLog α).selected = log.selected := by
      change (log.recordMeasurement policy' round' path' metric).selected = _
      unfold recordMeasurement
      split <;> rfl
    unfold count
    rw [hsame.cell?_eq, hselected]
    rfl
  | _ => rfl

theorem repetitions_record (hfull : Full log) (e : Event α) :
    (Recorder.record e log : RoundLog α).repetitions =
      log.repetitions + if e.isBeginning then 1 else 0 := by
  cases e with
  | began =>
    change log.begin.repetitions = _
    unfold begin
    rw [if_pos hfull.enabled]
    rfl
  | selected policy round path =>
    change (log.recordSelected policy round path).repetitions = _
    unfold recordSelected
    split <;> rfl
  | measured policy round path metric =>
    change (log.recordMeasurement policy round path metric).repetitions = _
    unfold recordMeasurement
    split <;> rfl
  | _ => rfl

/-- A log after some more events: it has the shape that it had, one more repetition for each
beginning, and for each triple one more count for each selection. -/
theorem counts_recordAll (hfull : Full log) (events : List (Event α)) :
    SameShape log (Recorder.recordAll events log) ∧
      (Recorder.recordAll events log).repetitions =
        log.repetitions + events.countP Event.isBeginning ∧
      ∀ policy round path, log.Within policy round path →
        (Recorder.recordAll events log).count policy round path =
          log.count policy round path + events.countP (Event.isSelection policy round path) := by
  -- Which cell belongs to a triple depends on the shape only, and no event changes the shape.
  induction events generalizing log with
  | nil => exact ⟨.refl log, rfl, fun _ _ _ _ => rfl⟩
  | cons e events ih =>
    have hsame := sameShape_record e log
    obtain ⟨hshape, hrepetitions, hcount⟩ := ih (hsame.full hfull)
    refine ⟨?_, ?_, fun policy round path hwithin => ?_⟩
    · exact hsame.trans hshape
    · rw [Recorder.recordAll_cons, hrepetitions, repetitions_record hfull, List.countP_cons]
      omega
    · rw [Recorder.recordAll_cons, hcount policy round path (hsame.within_iff.mpr hwithin),
        count_record hfull hwithin, List.countP_cons]
      omega

end Record

end RoundLog

end PathSelection
