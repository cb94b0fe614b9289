import PathSelection.Policy.Program
import PathSelection.Proofs.Lp.Filling

namespace PathSelection.Lp

/-- Shares of `m` plays among `k` paths. -/
structure Shares (k m : ℕ) (x : List ℝ) : Prop where
  length_eq : x.length = k
  mem_unit : ∀ v ∈ x, 0 ≤ v ∧ v ≤ 1
  sum_eq : x.sum = m

section Rows

theorem zipWith_replicate_length {β γ δ : Type} (f : β → γ → δ) (xs : List β) (c : γ) :
    List.zipWith f xs (List.replicate xs.length c) = xs.map (f · c) := by
  rw [← List.map_const', List.zipWith_map_right, List.zipWith_self]

section Program

variable {α : Type} [Scalar α] {columns : ℕ} {forms : List (List α)} {last : List α}

/-- The conditions of a program are its forms with their bounds, and the last form with the
total. -/
theorem rows_ofRows (hcolumns : ∀ form ∈ forms ++ [last], form.length = columns)
    {bounds : List α} (hbounds : bounds.length = forms.length) (costs : List α) (total : α)
    (direction : Direction) :
    (⟨Matrix.ofRows columns (forms ++ [last]), bounds, costs, total, direction⟩ :
      Program α).rows =
      List.zipWith (fun form bound => ⟨form, .atMost, bound⟩) forms bounds ++
        [⟨last, .equal, total⟩] := by
  let p : Program α :=
    ⟨Matrix.ofRows columns (forms ++ [last]), bounds, costs, total, direction⟩
  have hcount : p.matrix.rows = forms.length + 1 := by simp [p, Matrix.ofRows]
  have hform : ∀ r (hr : r < (forms ++ [last]).length), p.matrix.row r = (forms ++ [last])[r] :=
    fun r hr => Matrix.row_ofRows columns (forms ++ [last]) hcolumns r hr
  have hlength : (forms ++ [last]).length = forms.length + 1 := List.length_append
  -- Only the last row is an equation; all rows before it have their own bounds.
  have hbounded : (List.range forms.length).map p.row =
      List.zipWith (fun form bound => ⟨form, .atMost, bound⟩) forms bounds := by
    apply List.ext_getElem
    · simp [hbounds]
    intro r hr hr'
    have hlt : r < forms.length := by simpa using hr
    have hbound : p.bounds.getD r 0 = bounds[r] := List.getD_eq_getElem _ 0 (hbounds ▸ hlt)
    rw [List.getElem_map, List.getElem_range, List.getElem_zipWith]
    unfold Program.row
    rw [hcount, if_neg (by omega), hform r (by omega), List.getElem_append_left hlt, hbound]
  have hfixed : p.row forms.length = ⟨last, .equal, total⟩ := by
    unfold Program.row
    rw [hcount, if_pos rfl, hform _ (by omega), List.getElem_concat_length rfl]
  unfold Program.rows
  rw [hcount, List.range_succ, List.map_append, hbounded, List.map_singleton, hfixed]

end Program

end Rows

section Forms

theorem innerProduct_zeros (n : ℕ) (x : List ℝ) : innerProduct (List.replicate n 0) x = 0 := by
  rw [innerProduct_eq_sum]
  apply List.sum_eq_zero
  intro v hv
  obtain ⟨i, -, rfl⟩ := List.mem_map.mp hv
  rw [List.getD_eq_getElem?_getD, List.getElem?_getD_replicate_default_eq, zero_mul]

theorem innerProduct_ones (x : List ℝ) : innerProduct (List.replicate x.length 1) x = x.sum := by
  rw [innerProduct_real, ← List.map_const', List.zipWith_map_left, List.zipWith_self]
  simp only [one_mul, List.map_id']

theorem innerProduct_unitRow {k i : ℕ} (hi : i < k) (r : ℝ) (x : List ℝ) :
    innerProduct (unitRow k i r) x = r * x.getD i 0 := by
  unfold unitRow
  rw [Scalar.zero_real]
  induction k generalizing i x with
  | zero => exact absurd hi (Nat.not_lt_zero i)
  | succ k ih =>
    cases x with
    | nil => simp [innerProduct_real]
    | cons v x =>
      cases i with
      | zero =>
        rw [List.replicate_succ, List.set_cons_zero, innerProduct_cons, innerProduct_zeros,
          add_zero, List.getD_cons_zero]
      | succ i =>
        rw [List.replicate_succ, List.set_cons_succ, innerProduct_cons, zero_mul, zero_add,
          ih (Nat.lt_of_succ_lt_succ hi), List.getD_cons_succ]

theorem innerProduct_neg (b x : List ℝ) :
    innerProduct (b.map fun v => -v) x = -innerProduct b x := by
  induction b generalizing x with
  | nil => simp [innerProduct_real]
  | cons v b ih =>
    cases x with
    | nil => simp [innerProduct_real]
    | cons w x =>
      rw [List.map_cons, innerProduct_cons, innerProduct_cons, ih]
      ring

/-- A condition for each of the numbered costs is a condition for each path. -/
theorem forall_mem_zipIdx_map {β : Type} {costs : List ℝ} {f : ℝ × ℕ → β} {P : β → Prop} :
    (∀ y ∈ costs.zipIdx.map f, P y) ↔ ∀ i < costs.length, P (f (costs.getD i 0, i)) := by
  rw [List.forall_mem_map]
  constructor
  · intro h i hi
    apply h
    rw [List.mk_mem_zipIdx_iff_getElem?, List.getElem?_eq_getElem hi, List.getD_eq_getElem _ 0 hi]
  · rintro h ⟨r, i⟩ hmem
    obtain ⟨hi, hr⟩ := List.mem_zipIdx' hmem
    rw [hr, ← List.getD_eq_getElem _ 0 hi]
    exact h i hi

end Forms

section Programs

variable {costs bandwidths : List ℝ} {m : ℕ}

theorem length_unitRow {α : Type} [Scalar α] (k i : ℕ) (r : α) : (unitRow k i r).length = k := by
  rw [unitRow, List.length_set, List.length_replicate]

/-- A condition for each form with one common bound, and the sum of the shares. -/
theorem admits_of_rows {problem : Problem ℝ} {conditions : List (Row ℝ)}
    (hlen : problem.objective.length = costs.length)
    (hrows : problem.rows =
      conditions ++ [⟨List.replicate costs.length 1, .equal, (m : ℝ)⟩]) (x : List ℝ) :
    problem.Admits x ↔ Shares costs.length m x ∧ ∀ row ∈ conditions, row.Holds x := by
  have hsum : x.length = costs.length →
      ((⟨List.replicate costs.length 1, .equal, (m : ℝ)⟩ : Row ℝ).Holds x ↔ x.sum = m) := by
    intro hx
    unfold Row.Holds
    dsimp only
    rw [← hx, innerProduct_ones]
  constructor
  · rintro ⟨hx, hunit, hholds⟩
    rw [hlen] at hx
    rw [hrows, List.forall_mem_append, List.forall_mem_singleton, hsum hx] at hholds
    exact ⟨⟨hx, hunit, hholds.2⟩, hholds.1⟩
  · rintro ⟨⟨hx, hunit, htotal⟩, hholds⟩
    refine ⟨hx.trans hlen.symm, hunit, ?_⟩
    rw [hrows, List.forall_mem_append, List.forall_mem_singleton, hsum hx]
    exact ⟨hholds, htotal⟩

theorem latencyProgram_admits (hlen : costs.length = bandwidths.length) (m : ℕ) (cap : ℝ) :
    ∃ program, latencyProgram costs bandwidths m cap = .ok program ∧
      program.direction = .maximize ∧ program.costs = bandwidths ∧ program.total = m ∧
      ∀ x, program.problem.Admits x ↔ Shares costs.length m x ∧
        ∀ i < costs.length, costs.getD i 0 * x.getD i 0 ≤ cap := by
  refine ⟨_, latencyProgram_eq_ok hlen m cap, rfl, rfl, rfl, fun x => ?_⟩
  let forms := costs.zipIdx.map fun (r, i) => unitRow costs.length i r
  have hforms : forms.length = costs.length := by simp [forms]
  have hcolumns : ∀ form ∈ forms ++ [List.replicate costs.length (1 : ℝ)],
      form.length = costs.length := by
    rw [List.forall_mem_append, List.forall_mem_singleton, forall_mem_zipIdx_map]
    exact ⟨fun i _ => length_unitRow _ _ _, List.length_replicate⟩
  have hbounds : (List.replicate costs.length cap).length = forms.length :=
    List.length_replicate.trans hforms.symm
  have hrows := rows_ofRows hcolumns hbounds bandwidths (m : ℝ) .maximize
  rw [← hforms, zipWith_replicate_length, hforms] at hrows
  rw [Scalar.one_real, admits_of_rows hlen.symm hrows, List.forall_mem_map, forall_mem_zipIdx_map]
  refine and_congr_right fun _ => forall₂_congr fun i hi => ?_
  unfold Row.Holds
  dsimp only
  rw [innerProduct_unitRow hi]

theorem lossProgram_admits (hlen : costs.length = bandwidths.length) (m : ℕ) (cap : ℝ) :
    ∃ program, lossProgram costs bandwidths m cap = .ok program ∧
      program.direction = .maximize ∧ program.costs = bandwidths ∧ program.total = m ∧
      ∀ x, program.problem.Admits x ↔ Shares costs.length m x ∧ innerProduct costs x ≤ cap := by
  refine ⟨_, lossProgram_eq_ok hlen m cap, rfl, rfl, rfl, fun x => ?_⟩
  have hcolumns : ∀ form ∈ [costs] ++ [List.replicate costs.length (1 : ℝ)],
      form.length = costs.length := by
    rw [List.forall_mem_append, List.forall_mem_singleton, List.forall_mem_singleton]
    exact ⟨rfl, List.length_replicate⟩
  have hbounds : [cap].length = [costs].length := rfl
  have hrows := rows_ofRows hcolumns hbounds bandwidths (m : ℝ) .maximize
  rw [Scalar.one_real]
  refine (admits_of_rows hlen.symm hrows x).trans (and_congr_right fun _ => ?_)
  exact List.forall_mem_singleton

/-- The conditions of the bandwidth program: the sum of the shares leaves the first variable out. -/
theorem rows_bandwidthProgram (hlen : costs.length = bandwidths.length) (m : ℕ) (floor : ℝ) :
    (⟨Matrix.ofRows (costs.length + 1)
        ((costs.zipIdx.map fun (r, i) => -1 :: unitRow costs.length i r) ++
          [0 :: bandwidths.map fun b => -b] ++ [0 :: List.replicate costs.length 1]),
        List.replicate costs.length 0 ++ [-floor], 1 :: List.replicate costs.length 0, (m : ℝ),
        .minimize⟩ : Program ℝ).rows =
      (costs.zipIdx.map fun (r, i) =>
        (⟨-1 :: unitRow costs.length i r, .atMost, 0⟩ : Row ℝ)) ++
        [⟨0 :: bandwidths.map fun b => -b, .atMost, -floor⟩] ++
        [⟨0 :: List.replicate costs.length 1, .equal, (m : ℝ)⟩] := by
  let forms := costs.zipIdx.map fun (r, i) => (-1 : ℝ) :: unitRow costs.length i r
  let floorForm := (0 : ℝ) :: bandwidths.map fun b => -b
  let last := (0 : ℝ) :: List.replicate costs.length (1 : ℝ)
  let bounds := List.replicate costs.length (0 : ℝ) ++ [-floor]
  have hforms : forms.length = costs.length := by simp [forms]
  have hcolumns : ∀ form ∈ forms ++ [floorForm] ++ [last], form.length = costs.length + 1 := by
    rw [List.forall_mem_append, List.forall_mem_append, List.forall_mem_singleton,
      List.forall_mem_singleton, forall_mem_zipIdx_map]
    refine ⟨⟨fun i _ => ?_, ?_⟩, ?_⟩
    · rw [List.length_cons, length_unitRow]
    · simp [floorForm, hlen]
    · simp [last]
  have hbounds : bounds.length = (forms ++ [floorForm]).length := by simp [bounds, hforms]
  have hrows := rows_ofRows hcolumns hbounds (1 :: List.replicate costs.length 0) (m : ℝ) .minimize
  rw [List.zipWith_append (by simp [hforms]), ← hforms, zipWith_replicate_length,
    List.map_map, hforms] at hrows
  exact hrows

/-- The conditions of the bandwidth program: the first variable bounds the latency shares. -/
theorem bandwidthRows_hold {u : ℝ} {x : List ℝ} (hx : x.length = costs.length) (floor : ℝ) :
    (∀ row ∈ (costs.zipIdx.map fun (r, i) =>
        (⟨-1 :: unitRow costs.length i r, .atMost, 0⟩ : Row ℝ)) ++
        [⟨0 :: bandwidths.map fun b => -b, .atMost, -floor⟩] ++
        [⟨0 :: List.replicate costs.length 1, .equal, (m : ℝ)⟩], row.Holds (u :: x)) ↔
      (∀ i < costs.length, costs.getD i 0 * x.getD i 0 ≤ u) ∧
        floor ≤ innerProduct bandwidths x ∧ x.sum = m := by
  rw [List.forall_mem_append, List.forall_mem_append, List.forall_mem_singleton,
    List.forall_mem_singleton, forall_mem_zipIdx_map, and_assoc]
  unfold Row.Holds
  dsimp only
  refine and_congr (forall₂_congr fun i hi => ?_) (and_congr ?_ ?_)
  · rw [innerProduct_cons, innerProduct_unitRow hi]
    constructor <;> intro h <;> linarith
  · rw [innerProduct_cons, innerProduct_neg, zero_mul, zero_add, neg_le_neg_iff]
  · rw [innerProduct_cons, zero_mul, zero_add, ← hx, innerProduct_ones]

/-- The bandwidth program bounds all latency shares by its first variable, which is a variable of
the unit box like the others. -/
theorem bandwidthProgram_admits (hlen : costs.length = bandwidths.length) (m : ℕ) (floor : ℝ) :
    ∃ program, bandwidthProgram costs bandwidths m floor = .ok program ∧
      program.direction = .minimize ∧ program.total = m ∧
      (∀ u x, innerProduct program.costs (u :: x) = u) ∧
      ∀ point, program.problem.Admits point ↔ ∃ u x, point = u :: x ∧ 0 ≤ u ∧ u ≤ 1 ∧
        Shares costs.length m x ∧ (∀ i < costs.length, costs.getD i 0 * x.getD i 0 ≤ u) ∧
        floor ≤ innerProduct bandwidths x := by
  refine ⟨_, bandwidthProgram_eq_ok hlen m floor, rfl, rfl, fun u x => ?_, fun point => ?_⟩
  · rw [Scalar.zero_real, Scalar.one_real, innerProduct_cons, innerProduct_zeros, one_mul, add_zero]
  rw [Scalar.zero_real, Scalar.one_real]
  let program : Program ℝ := ⟨Matrix.ofRows (costs.length + 1)
    ((costs.zipIdx.map fun (r, i) => -1 :: unitRow costs.length i r) ++
      [0 :: bandwidths.map fun b => -b] ++ [0 :: List.replicate costs.length 1]),
    List.replicate costs.length 0 ++ [-floor], 1 :: List.replicate costs.length 0, (m : ℝ),
    .minimize⟩
  have hholds : ∀ u x, x.length = costs.length → ((∀ row ∈ program.rows, row.Holds (u :: x)) ↔
      (∀ i < costs.length, costs.getD i 0 * x.getD i 0 ≤ u) ∧
        floor ≤ innerProduct bandwidths x ∧ x.sum = m) := by
    intro u x hx
    rw [rows_bandwidthProgram hlen]
    exact bandwidthRows_hold hx floor
  have hcount : program.problem.objective.length = costs.length + 1 := by
    simp [Program.problem, program]
  constructor
  · -- A point has one variable more than there are paths, so that it is a bound with shares.
    rintro ⟨hlength, hunit, hall⟩
    cases point with
    | nil => exact absurd (hlength.trans hcount) (by simp)
    | cons u x =>
      have hx : x.length = costs.length := Nat.succ.inj (hlength.trans hcount)
      obtain ⟨hu, hunit'⟩ := List.forall_mem_cons.mp hunit
      obtain ⟨hshares, hfloor, hsum⟩ := (hholds u x hx).mp hall
      exact ⟨u, x, rfl, hu.1, hu.2, ⟨hx, hunit', hsum⟩, hshares, hfloor⟩
  · rintro ⟨u, x, rfl, hlow, hhigh, ⟨hx, hunit, hsum⟩, hshares, hfloor⟩
    refine ⟨?_, List.forall_mem_cons.mpr ⟨⟨hlow, hhigh⟩, hunit⟩, ?_⟩
    · exact (congrArg Nat.succ hx).trans hcount.symm
    · exact (hholds u x hx).mpr ⟨hshares, hfloor, hsum⟩

end Programs

end PathSelection.Lp
