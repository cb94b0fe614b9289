import Mathlib.Data.List.GetD
import Mathlib.Topology.Algebra.Monoid
import Mathlib.Topology.Order.Compact
import PathSelection.Lp.Program
import PathSelection.Proofs.Reals

namespace PathSelection

theorem innerProduct_real (xs ys : List ℝ) :
    innerProduct xs ys = (List.zipWith (· * ·) xs ys).sum := Scalar.sum_real _

theorem innerProduct_comm (xs ys : List ℝ) : innerProduct xs ys = innerProduct ys xs := by
  rw [innerProduct_real, innerProduct_real, List.zipWith_comm]
  simp only [mul_comm]

theorem innerProduct_eq_sum (xs ys : List ℝ) :
    innerProduct xs ys = ((List.range ys.length).map fun i => xs.getD i 0 * ys.getD i 0).sum := by
  rw [innerProduct_real]
  induction ys generalizing xs with
  | nil => simp
  | cons y ys ih =>
    rw [List.length_cons, List.range_succ_eq_map, List.map_cons, List.sum_cons, List.map_map]
    cases xs with
    | nil => simp [Function.comp_def]
    | cons x xs =>
      rw [List.zipWith_cons_cons, List.sum_cons, ih]
      rfl

namespace Lp

/-- Whether a point meets a condition. -/
def Row.Holds (row : Row ℝ) (x : List ℝ) : Prop :=
  match row.relation with
  | .atMost => innerProduct row.coefficients x ≤ row.bound
  | .equal => innerProduct row.coefficients x = row.bound

/-- A point of the unit box that meets all conditions of a problem. -/
structure Problem.Admits (problem : Problem ℝ) (x : List ℝ) : Prop where
  length_eq : x.length = problem.objective.length
  mem_unit : ∀ v ∈ x, 0 ≤ v ∧ v ≤ 1
  holds : ∀ row ∈ problem.rows, row.Holds x

/-- Whether the first value of an objective is at least as good as the second one. -/
def Direction.Prefers (direction : Direction) (a b : ℝ) : Prop :=
  match direction with
  | .maximize => b ≤ a
  | .minimize => a ≤ b

structure Problem.Optimal (problem : Problem ℝ) (solution : Solution ℝ) : Prop where
  admits : problem.Admits solution.point
  objective_eq : solution.objective = innerProduct problem.objective solution.point
  prefers : ∀ x, problem.Admits x →
    problem.direction.Prefers solution.objective (innerProduct problem.objective x)

/-- An engine that finds an optimum whenever there is a point to choose from. -/
structure Engine.Exact (engine : Engine ℝ) : Prop where
  optimal : ∀ problem x, problem.Admits x →
    ∃ solution, engine.solve problem = .ok solution ∧ problem.Optimal solution
  infeasible : ∀ problem, (∀ x, ¬ problem.Admits x) →
    ∃ reason, engine.solve problem = .error reason

section Rows

theorem innerProduct_of_isEmpty {row : Row ℝ} (h : row.isEmpty = true) (x : List ℝ) :
    innerProduct row.coefficients x = 0 := by
  rw [innerProduct_eq_sum]
  apply List.sum_eq_zero
  intro v hv
  obtain ⟨i, -, rfl⟩ := List.mem_map.mp hv
  have hzero : row.coefficients.getD i 0 = 0 := by
    rcases lt_or_ge i row.coefficients.length with hi | hi
    · rw [List.getD_eq_getElem _ 0 hi]
      have hall := List.all_eq_true.mp h _ (List.getElem_mem hi)
      rw [beq_iff_eq] at hall
      exact hall.trans Scalar.zero_real
    · exact List.getD_eq_default _ _ hi
  rw [hzero, zero_mul]

/-- A row of zeros is decided as every point decides it, if its value leaves no room for
rounding. -/
theorem holdsEmpty_iff {row : Row ℝ} (hempty : row.isEmpty = true)
    (hequal : row.relation = .equal → |row.bound| ≤ 1e-12 → row.bound = 0) (x : List ℝ) :
    row.holdsEmpty = true ↔ row.Holds x := by
  have hzero := innerProduct_of_isEmpty hempty x
  unfold Row.holdsEmpty Row.Holds
  cases hrelation : row.relation with
  | atMost =>
    dsimp only
    rw [hzero, decide_eq_true_iff, Scalar.zero_real]
  | equal =>
    dsimp only
    rw [hzero, decide_eq_true_iff, Scalar.abs_real]
    constructor
    · intro hsmall
      exact (hequal hrelation hsmall).symm
    · intro heq
      rw [← heq, abs_zero]
      norm_num

/-- Whether a condition counts as met at a point. A row of zeros is decided without the point, and
with room for rounding if it is an equality. -/
def Row.Passes (row : Row ℝ) (x : List ℝ) : Prop :=
  if row.isEmpty = true then row.holdsEmpty = true else row.Holds x

theorem Row.passes_iff_holds {row : Row ℝ}
    (hequal : row.relation = .equal → |row.bound| ≤ 1e-12 → row.bound = 0) (x : List ℝ) :
    row.Passes x ↔ row.Holds x := by
  unfold Row.Passes
  split
  · next hempty => exact holdsEmpty_iff hempty hequal x
  · rfl

/-- The rows that are handed on stand for all rows; otherwise no point passes all of them. -/
theorem handedRows_cases (rows : List (Row ℝ)) (r : ℕ) :
    (∃ handed, handedRows r rows = .ok handed ∧
      ∀ x, (∀ row ∈ handed, row.Holds x) ↔ ∀ row ∈ rows, row.Passes x) ∨
    ∃ failure, handedRows r rows = .error failure ∧ ∀ x, ¬ ∀ row ∈ rows, row.Passes x := by
  -- By induction on the rows: a row of zeros passes at all points or at none.
  induction rows generalizing r with
  | nil => exact Or.inl ⟨[], rfl, fun _ => by simp⟩
  | cons row rest ih =>
    have hrest := ih (r + 1)
    unfold handedRows
    split
    · next hempty =>
      have hiff (x : List ℝ) : row.Passes x ↔ row.holdsEmpty = true := by
        rw [Row.Passes, if_pos hempty]
      split
      · next hholds =>
        simpa only [List.forall_mem_cons, (hiff _).mpr hholds, true_and] using hrest
      · next hfails =>
        refine Or.inr ⟨_, rfl, fun x hall => hfails ?_⟩
        exact (hiff x).mp (hall row List.mem_cons_self)
    · next hempty =>
      have hiff (x : List ℝ) : row.Passes x ↔ row.Holds x := by
        rw [Row.Passes, if_neg hempty]
      rcases hrest with ⟨handed, hhanded, hsame⟩ | ⟨failure, hfailure, hnone⟩
      · rw [hhanded]
        refine Or.inl ⟨row :: handed, rfl, fun x => ?_⟩
        rw [List.forall_mem_cons, List.forall_mem_cons, hiff, hsame]
      · rw [hfailure]
        refine Or.inr ⟨failure, rfl, fun x hall => hnone x ?_⟩
        exact (List.forall_mem_cons.mp hall).2

end Rows

section Programs

/-- A program as a problem, with all its rows. -/
def Program.problem {α : Type} [Scalar α] (p : Program α) : Problem α :=
  ⟨p.direction, p.costs, p.rows⟩

theorem Program.bound_eq {p : Program ℝ} {row : Row ℝ} (hrow : row ∈ p.rows)
    (hequal : row.relation = .equal) : row.bound = p.total := by
  obtain ⟨r, -, rfl⟩ := List.mem_map.mp hrow
  unfold Program.row at hequal ⊢
  split
  · rfl
  · next hlast =>
    rw [if_neg hlast] at hequal
    exact absurd hequal (by simp)

/-- An exact engine answers exactly when there is a point to choose from, and then with an
optimum. -/
theorem Engine.Exact.solve_iff {engine : Engine ℝ} (hexact : engine.Exact) (problem : Problem ℝ) :
    ((∃ solution, engine.solve problem = .ok solution) ↔ ∃ x, problem.Admits x) ∧
      ∀ solution, engine.solve problem = .ok solution → problem.Optimal solution := by
  have hpoint : ∀ solution, engine.solve problem = .ok solution → ∃ x, problem.Admits x := by
    intro solution hsolution
    by_contra hempty
    obtain ⟨reason, herror⟩ := hexact.infeasible problem fun x hx => hempty ⟨x, hx⟩
    exact absurd (hsolution.symm.trans herror) (by simp)
  refine ⟨⟨fun ⟨solution, hsolution⟩ => hpoint solution hsolution, ?_⟩, ?_⟩
  · rintro ⟨x, hx⟩
    obtain ⟨solution, hsolution, -⟩ := hexact.optimal problem x hx
    exact ⟨solution, hsolution⟩
  · intro solution hsolution
    obtain ⟨x, hx⟩ := hpoint solution hsolution
    obtain ⟨other, hother, hoptimal⟩ := hexact.optimal problem x hx
    obtain rfl := Except.ok.inj (hother.symm.trans hsolution)
    exact hoptimal

/-- A point of the unit box that passes all rows of a program. -/
structure Program.Admits (p : Program ℝ) (x : List ℝ) : Prop where
  length_eq : x.length = p.costs.length
  mem_unit : ∀ v ∈ x, 0 ≤ v ∧ v ≤ 1
  passes : ∀ row ∈ p.rows, row.Passes x

structure Program.Optimal (p : Program ℝ) (solution : Solution ℝ) : Prop where
  admits : p.Admits solution.point
  objective_eq : solution.objective = innerProduct p.costs solution.point
  prefers : ∀ x, p.Admits x →
    p.direction.Prefers solution.objective (innerProduct p.costs x)

/-- With an exact engine a program has a solution exactly when some point passes all its rows, and
then the solution is optimal. -/
theorem Program.solve_optimal {engine : Engine ℝ} (hexact : engine.Exact) (p : Program ℝ) :
    ((∃ solution, p.solve engine = .ok solution) ↔ ∃ x, p.Admits x) ∧
      ∀ solution, p.solve engine = .ok solution → p.Optimal solution := by
  rcases handedRows_cases p.rows 0 with ⟨handed, hhanded, hsame⟩ | ⟨failure, hfailure, hnone⟩
  · let problem : Problem ℝ := ⟨p.direction, p.costs, handed⟩
    have hadmits (x : List ℝ) : problem.Admits x ↔ p.Admits x := by
      constructor
      · rintro ⟨hlength, hunit, hholds⟩
        exact ⟨hlength, hunit, (hsame x).mp hholds⟩
      · rintro ⟨hlength, hunit, hpasses⟩
        exact ⟨hlength, hunit, (hsame x).mpr hpasses⟩
    have hsolve : ∀ solution, p.solve engine = .ok solution ↔
        engine.solve problem = .ok solution := by
      intro solution
      rw [Program.solve_eq_ok, hhanded]
      simp [problem]
    obtain ⟨hiff, hoptimal⟩ := hexact.solve_iff problem
    constructor
    · exact (exists_congr hsolve).trans (hiff.trans (exists_congr hadmits))
    · intro solution hsolution
      obtain ⟨hpoint, hobjective, hprefers⟩ := hoptimal solution ((hsolve solution).mp hsolution)
      exact ⟨(hadmits _).mp hpoint, hobjective, fun x hx => hprefers x ((hadmits x).mpr hx)⟩
  · have hfails : ∀ solution, p.solve engine ≠ .ok solution := by
      intro solution hsolution
      obtain ⟨rows, hrows, -⟩ := Program.solve_eq_ok.mp hsolution
      exact absurd (hfailure.symm.trans hrows) (by simp)
    constructor
    · apply iff_of_false
      · rintro ⟨solution, hsolution⟩
        exact hfails solution hsolution
      · rintro ⟨x, hx⟩
        exact hnone x hx.passes
    · intro solution hsolution
      exact absurd hsolution (hfails solution)

/-- Without room for rounding in the last row, the rows pass where they hold. -/
theorem Program.solve_exact {engine : Engine ℝ} (hexact : engine.Exact) (p : Program ℝ)
    (htotal : |p.total| ≤ 1e-12 → p.total = 0) :
    ((∃ solution, p.solve engine = .ok solution) ↔ ∃ x, p.problem.Admits x) ∧
      ∀ solution, p.solve engine = .ok solution → p.problem.Optimal solution := by
  have hpasses (x : List ℝ) (row : Row ℝ) (hrow : row ∈ p.rows) :
      row.Passes x ↔ row.Holds x := by
    apply Row.passes_iff_holds
    intro hrelation
    rw [Program.bound_eq hrow hrelation]
    exact htotal
  have hadmits (x : List ℝ) : p.Admits x ↔ p.problem.Admits x := by
    constructor
    · rintro ⟨hlength, hunit, hall⟩
      exact ⟨hlength, hunit, fun row hrow => (hpasses x row hrow).mp (hall row hrow)⟩
    · rintro ⟨hlength, hunit, hall⟩
      exact ⟨hlength, hunit, fun row hrow => (hpasses x row hrow).mpr (hall row hrow)⟩
  obtain ⟨hiff, hoptimal⟩ := p.solve_optimal hexact
  refine ⟨hiff.trans (exists_congr hadmits), fun solution hsolution => ?_⟩
  obtain ⟨hpoint, hobjective, hprefers⟩ := hoptimal solution hsolution
  exact ⟨(hadmits _).mp hpoint, hobjective, fun x hx => hprefers x ((hadmits x).mpr hx)⟩

end Programs

section Existence

theorem innerProduct_ofFn (coefficients : List ℝ) {n : ℕ} (f : Fin n → ℝ) :
    innerProduct coefficients (List.ofFn f) = ∑ i : Fin n, coefficients.getD i 0 * f i := by
  rw [innerProduct_eq_sum, List.length_ofFn, ← List.map_coe_finRange_eq_range, List.map_map,
    ← List.ofFn_eq_map, List.sum_ofFn]
  apply Finset.sum_congr rfl
  intro i _
  simp

theorem continuous_innerProduct_ofFn (coefficients : List ℝ) (n : ℕ) :
    Continuous fun f : Fin n → ℝ => innerProduct coefficients (List.ofFn f) := by
  simp only [innerProduct_ofFn]
  apply continuous_finsetSum
  intro i _
  exact continuous_const.mul (continuous_apply i)

theorem isClosed_holds (row : Row ℝ) (n : ℕ) :
    IsClosed {f : Fin n → ℝ | row.Holds (List.ofFn f)} := by
  have hcont := continuous_innerProduct_ofFn row.coefficients n
  unfold Row.Holds
  cases row.relation with
  | atMost => exact isClosed_le hcont continuous_const
  | equal => exact isClosed_eq hcont continuous_const

/-- The points that a problem admits, as functions of the number of the variable. -/
def Problem.admitted (problem : Problem ℝ) : Set (Fin problem.objective.length → ℝ) :=
  {f | problem.Admits (List.ofFn f)}

theorem Problem.isCompact_admitted (problem : Problem ℝ) : IsCompact problem.admitted := by
  have hset : problem.admitted =
      Set.Icc 0 1 ∩ ⋂ row ∈ problem.rows, {f | row.Holds (List.ofFn f)} := by
    ext f
    simp only [Problem.admitted, Set.mem_ofPred_eq, Set.mem_inter_iff, Set.mem_iInter]
    constructor
    · rintro ⟨-, hunit, hholds⟩
      refine ⟨⟨fun i => ?_, fun i => ?_⟩, hholds⟩
      · exact (hunit (f i) (List.mem_ofFn.mpr ⟨i, rfl⟩)).1
      · exact (hunit (f i) (List.mem_ofFn.mpr ⟨i, rfl⟩)).2
    · rintro ⟨⟨hlow, hhigh⟩, hholds⟩
      refine ⟨List.length_ofFn, fun v hv => ?_, hholds⟩
      obtain ⟨i, rfl⟩ := List.mem_ofFn.mp hv
      exact ⟨hlow i, hhigh i⟩
  rw [hset]
  apply isCompact_Icc.inter_right
  exact isClosed_biInter fun row _ => isClosed_holds row _

theorem Problem.Admits.exists_ofFn {problem : Problem ℝ} {x : List ℝ} (hx : problem.Admits x) :
    ∃ f ∈ problem.admitted, List.ofFn f = x := by
  have hofFn : List.ofFn (fun i : Fin problem.objective.length => x.getD i 0) = x := by
    apply List.ext_getElem
    · rw [List.length_ofFn, hx.length_eq]
    intro i hi hi'
    rw [List.getElem_ofFn, List.getD_eq_getElem _ 0 hi']
  refine ⟨fun i => x.getD i 0, ?_, hofFn⟩
  unfold Problem.admitted
  rw [Set.mem_ofPred_eq, hofFn]
  exact hx

theorem Problem.optimal_of_forall {problem : Problem ℝ}
    {f : Fin problem.objective.length → ℝ} (hf : f ∈ problem.admitted)
    (h : ∀ g ∈ problem.admitted, problem.direction.Prefers
      (innerProduct problem.objective (List.ofFn f))
      (innerProduct problem.objective (List.ofFn g))) :
    problem.Optimal ⟨List.ofFn f, innerProduct problem.objective (List.ofFn f)⟩ := by
  refine ⟨hf, rfl, fun x hx => ?_⟩
  obtain ⟨g, hg, rfl⟩ := hx.exists_ofFn
  exact h g hg

/-- A problem that admits a point has an optimum, as the unit box is compact. -/
theorem Problem.exists_optimal (problem : Problem ℝ) {x : List ℝ} (hx : problem.Admits x) :
    ∃ solution, problem.Optimal solution := by
  have hcompact := problem.isCompact_admitted
  have hcont := (continuous_innerProduct_ofFn problem.objective
    problem.objective.length).continuousOn (s := problem.admitted)
  obtain ⟨start, hstart, -⟩ := hx.exists_ofFn
  have hnonempty : problem.admitted.Nonempty := ⟨start, hstart⟩
  cases hdirection : problem.direction with
  | maximize =>
    obtain ⟨f, hf, hmax⟩ := hcompact.exists_isMaxOn hnonempty hcont
    refine ⟨_, Problem.optimal_of_forall hf fun g hg => ?_⟩
    rw [hdirection]
    exact hmax hg
  | minimize =>
    obtain ⟨f, hf, hmin⟩ := hcompact.exists_isMinOn hnonempty hcont
    refine ⟨_, Problem.optimal_of_forall hf fun g hg => ?_⟩
    rw [hdirection]
    exact hmin hg

open Classical in
/-- An engine that picks an optimum whenever there is one. -/
noncomputable def idealEngine : Engine ℝ :=
  ⟨fun problem =>
    if h : ∃ solution, problem.Optimal solution then .ok h.choose
    else .error "problem is infeasible"⟩

theorem idealEngine_exact : idealEngine.Exact := by
  constructor
  · intro problem x hx
    have h := problem.exists_optimal hx
    exact ⟨h.choose, dif_pos h, h.choose_spec⟩
  · intro problem hnone
    refine ⟨_, dif_neg ?_⟩
    rintro ⟨solution, hoptimal⟩
    exact hnone _ hoptimal.admits

end Existence

end Lp

end PathSelection
