import Mathlib.Algebra.BigOperators.Intervals
import PathSelection.Proofs.Lp.Optimum

namespace PathSelection.Lp

section Forms

variable {a : Matrix ℝ} {r : ℕ} {x : List ℝ}

/-- The linear form of a row of a matrix at a point. -/
noncomputable def rowForm (a : Matrix ℝ) (r : ℕ) (x : List ℝ) : ℝ :=
  ∑ j ∈ Finset.range a.columns, a.entry r j * x.getD j 0

theorem length_row_le (a : Matrix ℝ) (r : ℕ) : (a.row r).length ≤ a.columns :=
  List.length_take_le _ _

theorem getD_row {j : ℕ} (hj : j < a.columns) : (a.row r).getD j 0 = a.entry r j := by
  unfold Matrix.row Matrix.entry
  rw [Scalar.zero_real, List.getD_eq_getElem?_getD, List.getElem?_take_of_lt hj,
    List.getElem?_drop, List.getD_eq_getElem?_getD]

theorem innerProduct_row (hx : x.length = a.columns) :
    innerProduct (a.row r) x = rowForm a r x := by
  have hterms : ∀ j ∈ Finset.range a.columns,
      (a.row r).getD j 0 * x.getD j 0 = a.entry r j * x.getD j 0 := by
    intro j hj
    rw [getD_row (Finset.mem_range.mp hj)]
  rw [innerProduct_eq_sum, hx]
  exact Finset.sum_congr rfl hterms

theorem isEmpty_row_iff {relation : Relation} {bound : ℝ} :
    (⟨a.row r, relation, bound⟩ : Row ℝ).isEmpty = true ↔ ∀ j < a.columns, a.entry r j = 0 := by
  unfold Row.isEmpty
  rw [List.all_eq_true]
  simp only [beq_iff_eq, Scalar.zero_real]
  rw [forall_mem_iff_getD]
  constructor
  · intro h j hj
    rw [← getD_row hj]
    rcases lt_or_ge j (a.row r).length with hlt | hge
    · exact h j hlt
    · exact List.getD_eq_default _ _ hge
  · intro h j hj
    have hcolumns : j < a.columns := hj.trans_le (length_row_le a r)
    rw [getD_row hcolumns]
    exact h j hcolumns

end Forms

section Programs

variable {matrix : Matrix ℝ} {bounds costs x : List ℝ} {total : ℝ}

/-- A point of the unit box within the bounds of all rows but the last, at which the last row has
the given total. A last row of zeros may miss the total by rounding. -/
structure Meets (matrix : Matrix ℝ) (bounds : List ℝ) (total : ℝ) (x : List ℝ) : Prop where
  length_eq : x.length = matrix.columns
  mem_unit : ∀ v ∈ x, 0 ≤ v ∧ v ≤ 1
  bounded : ∀ r, r + 1 < matrix.rows → rowForm matrix r x ≤ bounds.getD r 0
  fixed : rowForm matrix (matrix.rows - 1) x = total ∨
    (∀ j < matrix.columns, matrix.entry (matrix.rows - 1) j = 0) ∧ |total| ≤ 1e-12

theorem passes_atMost_iff {coefficients : List ℝ} {bound : ℝ} :
    (⟨coefficients, .atMost, bound⟩ : Row ℝ).Passes x ↔ innerProduct coefficients x ≤ bound :=
  Row.passes_iff_holds (fun hrelation => by cases hrelation) x

theorem passes_equal_iff {row : Row ℝ} (hequal : row.relation = .equal) :
    row.Passes x ↔ innerProduct row.coefficients x = row.bound ∨
      row.isEmpty = true ∧ |row.bound| ≤ 1e-12 := by
  unfold Row.Passes Row.Holds Row.holdsEmpty
  rw [hequal]
  dsimp only
  rw [decide_eq_true_iff, Scalar.abs_real]
  by_cases hempty : row.isEmpty = true
  · have hexactly : innerProduct row.coefficients x = row.bound → |row.bound| ≤ 1e-12 := by
      intro htotal
      rw [← htotal, innerProduct_of_isEmpty hempty x, abs_zero]
      norm_num
    rw [if_pos hempty]
    constructor
    · intro h
      exact Or.inr ⟨hempty, h⟩
    · rintro (h | h)
      · exact hexactly h
      · exact h.2
  · rw [if_neg hempty]
    constructor
    · exact Or.inl
    · rintro (h | h)
      · exact h
      · exact absurd h.1 hempty

theorem passes_row_iff {p : Program ℝ} (hx : x.length = p.matrix.columns) {r : ℕ}
    (hr : r + 1 < p.matrix.rows) :
    (p.row r).Passes x ↔ rowForm p.matrix r x ≤ p.bounds.getD r 0 := by
  have hrow : p.row r = ⟨p.matrix.row r, .atMost, p.bounds.getD r 0⟩ := by
    rw [Program.row, if_neg hr.ne, Scalar.zero_real]
  rw [hrow, passes_atMost_iff, innerProduct_row hx]

theorem passes_last_iff {p : Program ℝ} (hx : x.length = p.matrix.columns)
    (hrows : 0 < p.matrix.rows) :
    (p.row (p.matrix.rows - 1)).Passes x ↔ rowForm p.matrix (p.matrix.rows - 1) x = p.total ∨
      (∀ j < p.matrix.columns, p.matrix.entry (p.matrix.rows - 1) j = 0) ∧ |p.total| ≤ 1e-12 := by
  have hrow : p.row (p.matrix.rows - 1) =
      ⟨p.matrix.row (p.matrix.rows - 1), .equal, p.total⟩ := by
    rw [Program.row, if_pos (by omega)]
  rw [hrow, passes_equal_iff rfl, innerProduct_row hx, isEmpty_row_iff]

theorem admits_iff_meets {direction : Direction} (hbounds : bounds.length + 1 = matrix.rows)
    (hcosts : costs.length = matrix.columns) :
    (⟨matrix, bounds, costs, total, direction⟩ : Program ℝ).Admits x ↔
      Meets matrix bounds total x := by
  let p : Program ℝ := ⟨matrix, bounds, costs, total, direction⟩
  have hpositive : 0 < matrix.rows := by omega
  constructor
  · rintro ⟨hlength, hunit, hall⟩
    have hx : x.length = matrix.columns := hlength.trans hcosts
    have hrow (r : ℕ) (hr : r < matrix.rows) : (p.row r).Passes x :=
      hall _ (List.mem_map_of_mem (List.mem_range.mpr hr))
    refine ⟨hx, hunit, fun r hr => ?_, ?_⟩
    · exact (passes_row_iff (p := p) hx hr).mp (hrow r (by omega))
    · exact (passes_last_iff (p := p) hx hpositive).mp (hrow (matrix.rows - 1) (by omega))
  · rintro ⟨hx, hunit, hbounded, hfixed⟩
    refine ⟨hx.trans hcosts.symm, hunit, fun row hrow => ?_⟩
    obtain ⟨r, hr, rfl⟩ := List.mem_map.mp hrow
    have hr' : r < matrix.rows := List.mem_range.mp hr
    rcases Nat.lt_or_ge (r + 1) matrix.rows with hlt | hge
    · exact (passes_row_iff (p := p) hx hlt).mpr (hbounded r hlt)
    · obtain rfl : r = matrix.rows - 1 := by omega
      exact (passes_last_iff (p := p) hx hpositive).mpr hfixed

/-- A program over any matrix with at least one row, without columns or with rows of zeros too, is
solved by an exact engine exactly when some point of the unit box meets all its conditions. The
solution then meets all of them itself, and no such point is worth more, or costs less. -/
theorem boxProgram_solved {engine : Engine ℝ} (hexact : engine.Exact)
    (hbounds : bounds.length + 1 = matrix.rows) (hcosts : costs.length = matrix.columns)
    (total : ℝ) (direction : Direction) :
    ∃ program, Program.new matrix bounds costs total direction = .ok program ∧
      ((∃ solution, program.solve engine = .ok solution) ↔ ∃ x, Meets matrix bounds total x) ∧
      ∀ solution, program.solve engine = .ok solution →
        Meets matrix bounds total solution.point ∧
        solution.objective = innerProduct costs solution.point ∧
        ∀ x, Meets matrix bounds total x →
          direction.Prefers solution.objective (innerProduct costs x) := by
  refine ⟨_, Program.new_eq_ok hbounds hcosts total direction, ?_⟩
  have hadmits (x : List ℝ) : (⟨matrix, bounds, costs, total, direction⟩ : Program ℝ).Admits x ↔
      Meets matrix bounds total x := admits_iff_meets hbounds hcosts
  obtain ⟨hsolved, hoptimal⟩ := Program.solve_optimal hexact
    ⟨matrix, bounds, costs, total, direction⟩
  refine ⟨hsolved.trans (exists_congr hadmits), fun solution hsolution => ?_⟩
  obtain ⟨hpoint, hobjective, hprefers⟩ := hoptimal solution hsolution
  exact ⟨(hadmits _).mp hpoint, hobjective, fun x hx => hprefers x ((hadmits x).mpr hx)⟩

/-- A half is the most that a share with the bound 1/2 is worth. The first row is a row of zeros,
and so is the last one, which misses its total by rounding. -/
theorem boxProgram_solved_empty :
    let matrix : Matrix ℝ := .ofRows 2 [[0, 0], [1, 0], [0, 0]]
    idealEngine.Exact ∧ ([0, 1 / 2] : List ℝ).length + 1 = matrix.rows ∧
      ([1, -1] : List ℝ).length = matrix.columns ∧
      ∃ program solution, Program.new matrix [0, 1 / 2] [1, -1] 1e-13 .maximize = .ok program ∧
        program.solve idealEngine = .ok solution ∧ solution.objective = 1 / 2 := by
  intro matrix
  have hzero (x : List ℝ) : rowForm matrix 0 x = 0 := by
    simp [rowForm, matrix, Matrix.ofRows, Matrix.entry, Finset.sum_range_succ]
  have hone (x : List ℝ) : rowForm matrix 1 x = x.getD 0 0 := by
    simp [rowForm, matrix, Matrix.ofRows, Matrix.entry, Finset.sum_range_succ, Scalar.zero_real]
  have hmeets : Meets matrix [0, 1 / 2] 1e-13 [1 / 2, 0] := by
    refine ⟨rfl, by norm_num, fun r hr => ?_, Or.inr ⟨fun j hj => ?_, by norm_num⟩⟩
    · have hr' : r < 2 := Nat.lt_of_succ_lt_succ hr
      obtain rfl | rfl : r = 0 ∨ r = 1 := by omega
      · exact (hzero _).le
      · exact (hone _).le
    · have hj' : j < 2 := hj
      obtain rfl | rfl : j = 0 ∨ j = 1 := by omega
      · rfl
      · rfl
  obtain ⟨program, hnew, hsolved, hoptimal⟩ := boxProgram_solved idealEngine_exact
    (show ([0, 1 / 2] : List ℝ).length + 1 = matrix.rows from rfl)
    (show ([1, -1] : List ℝ).length = matrix.columns from rfl) 1e-13 .maximize
  obtain ⟨solution, hsolution⟩ := hsolved.mpr ⟨_, hmeets⟩
  obtain ⟨hpoint, hobjective, hprefers⟩ := hoptimal solution hsolution
  refine ⟨idealEngine_exact, rfl, rfl, program, solution, hnew, hsolution, le_antisymm ?_ ?_⟩
  · obtain ⟨u, v, huv⟩ : ∃ u v, solution.point = [u, v] :=
      List.length_eq_two.mp hpoint.length_eq
    have hu : u ≤ 1 / 2 := by simpa [huv, hone] using hpoint.bounded 1 (by decide)
    have hv : 0 ≤ v := (hpoint.mem_unit v (by simp [huv])).1
    calc solution.objective = u - v := by
          rw [hobjective, huv, innerProduct_real]
          simp [sub_eq_add_neg]
      _ ≤ 1 / 2 := by linarith
  · have hbest := hprefers _ hmeets
    simpa [Direction.Prefers, innerProduct_real] using hbest

end Programs

end PathSelection.Lp
