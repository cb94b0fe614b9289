import Mathlib.Data.List.FinRange
import Mathlib.Logic.ExistsUnique
import PathSelection.Proofs.Log.Table

namespace PathSelection.RoundLog

/-- The quantities of a row: how often a path was selected, and what it measured on average. -/
def quantity {α : Type} [Scalar α] (log : RoundLog α) (s : Fin 4) (policy round path : Nat) : α :=
  match s with
  | 0 => log.selectionFrequency policy round path
  | 1 => (log.meanMetric policy round path).latency
  | 2 => (log.meanMetric policy round path).bandwidth
  | 3 => (log.meanMetric policy round path).loss

section Values

variable {α : Type} [Scalar α] {log : RoundLog α} {policies : Nat}

/-- A row has a grid for each quantity. -/
theorem rowValues_eq (log : RoundLog α) (policies round : Nat) :
    log.rowValues policies round = (List.finRange 4).flatMap fun s =>
      grid policies log.paths fun p i => log.quantity s p round i := by
  simp [rowValues, List.finRange_succ, quantity]

theorem length_rowValues (log : RoundLog α) (policies round : Nat) :
    (log.rowValues policies round).length = 4 * (policies * log.paths) := by
  rw [rowValues_eq, length_flatMap_of_length fun s _ => length_grid policies log.paths _,
    List.length_finRange]

theorem getElem?_rowValues (s : Fin 4) {p i : Nat} (hp : p < policies) (hi : i < log.paths)
    (round : Nat) :
    (log.rowValues policies round)[(s * policies + p) * log.paths + i]? =
      some (log.quantity s p round i) := by
  have hcell : (s * policies + p) * log.paths + i =
      s * (policies * log.paths) + (p * log.paths + i) := by
    rw [Nat.add_mul, Nat.mul_assoc, Nat.add_assoc]
  rw [rowValues_eq, hcell, getElem?_flatMap_of_length (fun s _ => length_grid _ _ _)
    (index_lt hp hi), List.getElem?_eq_getElem (by simp), List.getElem_finRange,
    Option.bind_some, getElem?_grid hp hi]
  rfl

omit [Scalar α] in
theorem length_header (log : RoundLog α) (names : List String) :
    (log.header names).length = names.length + 3 := by
  simp [header]

end Values

/-- Every place of a row but the first belongs to one quantity, one policy and one path. -/
theorem existsUnique_cell {policies paths k : Nat} (hpos : 0 < k)
    (hk : k < 1 + 4 * policies * paths) :
    ∃! cell : Fin 4 × Nat × Nat, cell.2.1 < policies ∧ cell.2.2 < paths ∧
      k = 1 + (cell.1 * policies + cell.2.1) * paths + cell.2.2 := by
  have hcells : k - 1 < 4 * policies * paths := by omega
  have hpaths : 0 < paths := Nat.pos_of_ne_zero fun h => by simp [h] at hcells
  have hpolicies : 0 < policies := Nat.pos_of_ne_zero fun h => by simp [h] at hcells
  have hquantity : (k - 1) / paths / policies < 4 := by
    rw [Nat.div_lt_iff_lt_mul hpolicies, Nat.div_lt_iff_lt_mul hpaths]
    exact hcells
  refine ⟨(⟨(k - 1) / paths / policies, hquantity⟩, (k - 1) / paths % policies, (k - 1) % paths),
    ⟨Nat.mod_lt _ hpolicies, Nat.mod_lt _ hpaths, ?_⟩, ?_⟩
  · have hindex := (layer_eq_iff (j := k - 1) ((k - 1) / paths / policies)
      (Nat.mod_lt _ hpolicies) (Nat.mod_lt _ hpaths)).mp ⟨rfl, rfl, rfl⟩
    dsimp only
    omega
  · rintro ⟨s, p, i⟩ ⟨hp, hi, hcell⟩
    dsimp only at hp hi hcell
    obtain ⟨hpath, hpolicy, hlayer⟩ :=
      (layer_eq_iff (j := k - 1) (s : Nat) hp hi).mpr (by omega)
    rw [Prod.mk.injEq, Prod.mk.injEq, Fin.ext_iff]
    exact ⟨hlayer.symm, hpolicy.symm, hpath.symm⟩

section Print

variable {log : RoundLog Float} {names : List String}

theorem header_eq (log : RoundLog Float) (names : List String) :
    log.header names = headerLines "# result in: " " simulations." "# policy "
      ["selection", "rtt", "bw", "lossrate"] names log.repetitions := rfl

theorem lines_eq (henabled : log.enabled = true) (names : List String) :
    log.lines names = log.header names ++ (List.range log.rounds).map fun t =>
      rowText t (log.rowValues (Nat.min names.length log.policies) t) :=
  if_pos henabled

/-- The text of an enabled log has a row for each round, with all quantities of the policies that
have a name. -/
theorem isTable_render (henabled : log.enabled = true)
    (hnames : ∀ name ∈ names, '\n' ∉ name.toList) :
    IsTable (log.header names) log.rounds (fun t =>
      IsRow (Nat.min names.length log.policies) log.paths (fun s p i => log.quantity s p t i) t)
      (log.render names) := by
  unfold render
  rw [lines_eq henabled]
  apply isTable_join
  · rw [header_eq]
    exact newline_not_mem_headerLines (by decide) (by decide) (by decide) (by decide) hnames _
  · exact fun t _ => isRow_of_values (length_rowValues _ _ _) fun s p i hp hi =>
      getElem?_rowValues s hp hi t

/-- The text of an enabled log is read back by positions. Below a line for each name and three more
there is a row for each round. Its fields are the number of the round and the four quantities, one
after the other, each for all paths of all policies that have a name. Every field but the first
belongs to one quantity, one policy and one path. -/
theorem render_positions (henabled : log.enabled = true)
    (hnames : ∀ name ∈ names, '\n' ∉ name.toList) :
    ∃ rows : List (List Char),
      (log.render names).toList.splitOn '\n' =
        (log.header names).map String.toList ++ rows ++ [[]] ∧
      (log.header names).length = names.length + 3 ∧ rows.length = log.rounds ∧
      ∀ t row, rows[t]? = some row →
        let policies := Nat.min names.length log.policies
        let fields := row.splitOn ' '
        fields.length = 1 + 4 * policies * log.paths ∧
        fields[0]? = some (toString (t + 1)).toList ∧
        (∀ (s : Fin 4) (p i : Nat), p < policies → i < log.paths →
          fields[1 + (s * policies + p) * log.paths + i]? =
            some (NumberText.fixed 6 (log.quantity s p t i)).toList) ∧
        ∀ k, 0 < k → k < fields.length → ∃! cell : Fin 4 × Nat × Nat,
          cell.2.1 < policies ∧ cell.2.2 < log.paths ∧
            k = 1 + (cell.1 * policies + cell.2.1) * log.paths + cell.2.2 := by
  obtain ⟨rows, htext, hlength, hrows⟩ := isTable_render henabled hnames
  refine ⟨rows, htext, length_header log names, hlength, fun t row hrow => ?_⟩
  intro policies fields
  have hfields : IsRow policies log.paths (fun s p i => log.quantity s p t i) t fields :=
    hrows t row hrow
  refine ⟨hfields.length_eq, hfields.number_eq, hfields.cell_eq, fun k hpos hk => ?_⟩
  exact existsUnique_cell hpos (hfields.length_eq ▸ hk)

/-- A log of two policies, two rounds and three paths, of which one policy has a name. -/
theorem render_positions_named :
    let log : RoundLog Float := RoundLog.new 2 2 3
    log.enabled = true ∧ (∀ name ∈ ["A"], '\n' ∉ name.toList) ∧
      ∃ rows : List (List Char),
        (log.render ["A"]).toList.splitOn '\n' =
          (log.header ["A"]).map String.toList ++ rows ++ [[]] ∧
        rows.length = 2 ∧
        ∀ (t : Nat) (row : List Char), rows[t]? = some row → (row.splitOn ' ').length = 13 := by
  intro log
  have henabled : log.enabled = true := rfl
  have hnames : ∀ name ∈ ["A"], '\n' ∉ name.toList := by decide
  obtain ⟨rows, htext, -, hlength, hrows⟩ := render_positions henabled hnames
  exact ⟨henabled, hnames, rows, htext, hlength, fun t row hrow => (hrows t row hrow).1⟩

end Print

end PathSelection.RoundLog
