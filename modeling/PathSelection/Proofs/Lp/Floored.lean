import Mathlib.Data.Nat.Cast.Defs
import PathSelection.Policy.Constrained
import PathSelection.Proofs.Lp.Capped
/-!
The program that sets a floor to the bandwidth, under an exact engine. Its first variable bounds the
latency shares from above and lies in the unit interval like all others.
-/
namespace PathSelection.Lp

/-- What the paths add to the latency, each by its share. -/
def latencyShares (costs x : List ℝ) : Set ℝ :=
  {share | ∃ i < costs.length, share = costs.getD i 0 * x.getD i 0}

/-- Shares whose total bandwidth is at least a floor. -/
structure Floored (bandwidths : List ℝ) (m : ℕ) (floor : ℝ) (x : List ℝ) : Prop where
  shares : Shares bandwidths.length m x
  floor_le : floor ≤ innerProduct bandwidths x

/-- The largest latency share of each choice of shares that reaches the floor. -/
def worstShares (costs bandwidths : List ℝ) (m : ℕ) (floor : ℝ) : Set ℝ :=
  {worst | ∃ x, Floored bandwidths m floor x ∧ IsGreatest (latencyShares costs x) worst}

variable {costs bandwidths x : List ℝ} {m : ℕ} {floor : ℝ}

section Worst

theorem exists_worst (hne : costs ≠ []) (x : List ℝ) :
    ∃ worst, IsGreatest (latencyShares costs x) worst := by
  have hpos : 0 < costs.length := List.length_pos_iff.mpr hne
  obtain ⟨i, hi, hmax⟩ := (Finset.range costs.length).exists_max_image
    (fun i => costs.getD i 0 * x.getD i 0) ⟨0, Finset.mem_range.mpr hpos⟩
  refine ⟨_, ⟨i, Finset.mem_range.mp hi, rfl⟩, ?_⟩
  rintro share ⟨j, hj, rfl⟩
  exact hmax j (Finset.mem_range.mpr hj)

theorem upperBound_nonneg (hlen : costs.length = bandwidths.length) (hne : costs ≠ [])
    (hcosts : ∀ r ∈ costs, 0 ≤ r) (hx : Floored bandwidths m floor x) {u : ℝ}
    (hu : u ∈ upperBounds (latencyShares costs x)) : 0 ≤ u := by
  have hpos : 0 < costs.length := List.length_pos_iff.mpr hne
  have hcount : 0 < x.length := by rw [hx.shares.length_eq, ← hlen]; exact hpos
  have hfirst : 0 ≤ x.getD 0 0 := (forall_mem_iff_getD.mp hx.shares.mem_unit 0 hcount).1
  calc
    0 ≤ costs.getD 0 0 * x.getD 0 0 := mul_nonneg (getD_nonneg hcosts 0) hfirst
    _ ≤ u := hu ⟨0, hpos, rfl⟩

theorem exists_floored_iff (hm : m ≤ bandwidths.length) :
    (∃ x, Floored bandwidths m floor x) ↔
      floor ≤ ((topIndices Scalar.totalLe bandwidths m).map (bandwidths.getD · 0)).sum := by
  obtain ⟨⟨best, hbest, hvalue⟩, hupper⟩ := isGreatest_topIndices hm
  constructor
  · rintro ⟨x, hx, hfloor⟩
    exact hfloor.trans (hupper ⟨x, hx, rfl⟩)
  · intro hfloor
    exact ⟨best, hbest, hvalue ▸ hfloor⟩

/-- No share is above one, so with latencies of at most one no latency share is. -/
theorem latencyShare_le_one (hlen : costs.length = bandwidths.length) (hone : ∀ r ∈ costs, r ≤ 1)
    (hx : Floored bandwidths m floor x) : ∀ share ∈ latencyShares costs x, share ≤ 1 := by
  rintro share ⟨i, hi, rfl⟩
  have hcount : i < x.length := by rw [hx.shares.length_eq, ← hlen]; exact hi
  have hshare := forall_mem_iff_getD.mp hx.shares.mem_unit i hcount
  have hcost : costs.getD i 0 ≤ 1 := forall_mem_iff_getD.mp hone i hi
  exact mul_le_one₀ hcost hshare.1 hshare.2

/-- Equal latency shares are best: to make all of them smaller, every path would have to give some
of its share away. -/
theorem isLeast_of_equal (hlen : costs.length = bandwidths.length) (hne : costs ≠ [])
    (hpos : ∀ r ∈ costs, 0 < r) (hx : Floored bandwidths m floor x) {u : ℝ}
    (hequal : ∀ share ∈ latencyShares costs x, share = u) :
    IsLeast (worstShares costs bandwidths m floor) u := by
  constructor
  · obtain ⟨worst, hworst⟩ := exists_worst hne x
    exact ⟨x, hx, hequal worst hworst.1 ▸ hworst⟩
  · rintro worst ⟨y, hy, -, hupper⟩
    -- With a smaller worst share every path gets less than before, but the plays are as many.
    by_contra hlt
    have hless : ∀ i ∈ List.range costs.length, y.getD i 0 < x.getD i 0 := by
      intro i hi
      have hi' : i < costs.length := List.mem_range.mp hi
      have hcost : 0 < costs.getD i 0 := forall_mem_iff_getD.mp hpos i hi'
      have hshare : costs.getD i 0 * y.getD i 0 < costs.getD i 0 * x.getD i 0 :=
        calc
          costs.getD i 0 * y.getD i 0 ≤ worst := hupper ⟨i, hi', rfl⟩
          _ < u := not_le.mp hlt
          _ = costs.getD i 0 * x.getD i 0 := (hequal _ ⟨i, hi', rfl⟩).symm
      exact lt_of_mul_lt_mul_left hshare hcost.le
    have hrange : List.range costs.length ≠ [] := by
      rw [Ne, List.range_eq_nil, List.length_eq_zero_iff]
      exact hne
    have hsum := List.sum_lt_sum_of_ne_nil hrange _ _ hless
    have hcount : ∀ {z}, Floored bandwidths m floor z →
        ((List.range costs.length).map (z.getD · 0)).sum = m := by
      intro z hz
      rw [hlen, ← hz.shares.length_eq, map_getD_range, hz.shares.sum_eq]
    rw [hcount hy, hcount hx] at hsum
    exact lt_irrefl _ hsum

end Worst

section Program

/-- The points of the bandwidth program are shares that reach the floor, after a bound of at most
one for their latency shares. -/
theorem bandwidthProgram_admits_floored (hlen : costs.length = bandwidths.length)
    (hne : costs ≠ []) (hcosts : ∀ r ∈ costs, 0 ≤ r) (m : ℕ) (floor : ℝ) :
    ∃ program, bandwidthProgram costs bandwidths m floor = .ok program ∧
      program.direction = .minimize ∧ program.total = m ∧
      (∀ u x, innerProduct program.costs (u :: x) = u) ∧
      ∀ point, program.problem.Admits point ↔ ∃ u x, point = u :: x ∧ u ≤ 1 ∧
        Floored bandwidths m floor x ∧ u ∈ upperBounds (latencyShares costs x) := by
  obtain ⟨program, hprogram, hdirection, htotal, hvalue, hadmits⟩ :=
    bandwidthProgram_admits hlen m floor
  refine ⟨program, hprogram, hdirection, htotal, hvalue, fun point => (hadmits point).trans ?_⟩
  constructor
  · rintro ⟨u, x, rfl, -, hone, hshares, hbound, hfloor⟩
    refine ⟨u, x, rfl, hone, ⟨hlen ▸ hshares, hfloor⟩, ?_⟩
    rintro share ⟨i, hi, rfl⟩
    exact hbound i hi
  · rintro ⟨u, x, rfl, hone, hx, hu⟩
    have hnonneg := upperBound_nonneg hlen hne hcosts hx hu
    exact ⟨u, x, rfl, hnonneg, hone, hlen.symm ▸ hx.shares, fun i hi => hu ⟨i, hi, rfl⟩,
      hx.floor_le⟩

/-- A solution of the bandwidth program: shares that reach the floor, with their largest latency
share, which is the least one. -/
structure Balanced (costs bandwidths : List ℝ) (m : ℕ) (floor : ℝ) (solution : Solution ℝ) :
    Prop where
  floored : Floored bandwidths m floor (Constrained.shares .bandwidth solution.point)
  isGreatest : IsGreatest (latencyShares costs (Constrained.shares .bandwidth solution.point))
    solution.objective
  isLeast : IsLeast (worstShares costs bandwidths m floor) solution.objective

/-- A bound that is the least of all bounds up to one is the largest latency share of its own point,
and no larger than that of any other point. -/
theorem isLeast_worstShares (hne : costs ≠ []) (hx : Floored bandwidths m floor x) {u : ℝ}
    (hone : u ≤ 1) (hu : u ∈ upperBounds (latencyShares costs x))
    (hleast : ∀ v y, v ≤ 1 → Floored bandwidths m floor y →
      v ∈ upperBounds (latencyShares costs y) → u ≤ v) :
    IsGreatest (latencyShares costs x) u ∧ IsLeast (worstShares costs bandwidths m floor) u := by
  have hgreatest : IsGreatest (latencyShares costs x) u := by
    obtain ⟨worst, hworst⟩ := exists_worst hne x
    have hle : worst ≤ u := hu hworst.1
    have heq : u = worst := le_antisymm (hleast worst x (hle.trans hone) hx hworst.2) hle
    rw [heq]
    exact hworst
  refine ⟨hgreatest, ⟨x, hx, hgreatest⟩, ?_⟩
  rintro worst ⟨y, hy, hworst⟩
  -- A largest share above one is no bound of the program, but it is above this one anyway.
  rcases le_total worst 1 with hle | hge
  · exact hleast worst y hle hy hworst.2
  · exact hone.trans hge

theorem bandwidthProgram_balanced {engine : Engine ℝ} (hexact : engine.Exact)
    (hlen : costs.length = bandwidths.length) (hne : costs ≠ []) (hcosts : ∀ r ∈ costs, 0 ≤ r)
    (m : ℕ) (floor : ℝ) :
    ∃ program, bandwidthProgram costs bandwidths m floor = .ok program ∧
      ((∃ solution, program.solve engine = .ok solution) ↔
        ∃ x, Floored bandwidths m floor x ∧ ∀ share ∈ latencyShares costs x, share ≤ 1) ∧
      ∀ solution, program.solve engine = .ok solution →
        Balanced costs bandwidths m floor solution := by
  obtain ⟨program, hprogram, hdirection, htotal, hvalue, hadmits⟩ :=
    bandwidthProgram_admits_floored hlen hne hcosts m floor
  obtain ⟨hsolved, hoptimal⟩ := program.solve_exact hexact (eq_zero_of_small htotal)
  refine ⟨program, hprogram, hsolved.trans ?_, fun solution hsolution => ?_⟩
  · constructor
    · rintro ⟨point, hpoint⟩
      obtain ⟨u, x, -, hone, hx, hu⟩ := (hadmits point).mp hpoint
      exact ⟨x, hx, fun share hshare => (hu hshare).trans hone⟩
    · -- One is a bound of all latency shares that the first variable can take.
      rintro ⟨x, hx, hone⟩
      exact ⟨1 :: x, (hadmits _).mpr ⟨1, x, rfl, le_rfl, hx, hone⟩⟩
  · obtain ⟨hpoint, hobjective, hprefers⟩ := hoptimal solution hsolution
    obtain ⟨u, x, hux, hone, hx, hu⟩ := (hadmits _).mp hpoint
    have hu_eq : solution.objective = u := by
      rw [hobjective, hux]
      exact hvalue u x
    have hleast : ∀ v y, v ≤ 1 → Floored bandwidths m floor y →
        v ∈ upperBounds (latencyShares costs y) → u ≤ v := by
      intro v y hv hy hbound
      have hle := hprefers (v :: y) ((hadmits _).mpr ⟨v, y, rfl, hv, hy, hbound⟩)
      unfold Program.problem at hle
      rw [hdirection, hu_eq] at hle
      exact hle.trans_eq (hvalue v y)
    have hshares : Constrained.shares .bandwidth solution.point = x := by
      rw [hux]
      rfl
    obtain ⟨hgreatest, hworst⟩ := isLeast_worstShares hne hx hone hu hleast
    refine ⟨hshares.symm ▸ hx, ?_, ?_⟩
    · rw [hshares, hu_eq]
      exact hgreatest
    · rw [hu_eq]
      exact hworst

/-- The best value of a round is the objective of its program, also where it is computed from the
shares. -/
theorem oracle_eq_some_iff {ρ : Type} {p : Constrained ρ ℝ} {means : List (Metric ℝ)}
    (hm : m ≤ means.length) {program : Program ℝ}
    (hprogram : resourceProgram p.resource (means.map p.resource.cost)
      (means.map Metric.bandwidth) m p.threshold = .ok program)
    (hshares : p.resource ≠ .bandwidth → ∀ solution, program.solve p.engine = .ok solution →
      solution.point.length = means.length ∧
        solution.objective = innerProduct (means.map Metric.bandwidth) solution.point) (v : ℝ) :
    p.oracle means m = some v ↔
      ∃ solution, program.solve p.engine = .ok solution ∧ v = solution.objective := by
  unfold Constrained.oracle
  rw [if_neg (Nat.not_lt.mpr hm)]
  dsimp only
  unfold Constrained.solve
  rw [hprogram]
  cases hsolve : program.solve p.engine with
  | error failure => simp [hsolve]
  | ok solution =>
    have hdot : p.resource ≠ .bandwidth →
        (dot solution.point (means.map Metric.bandwidth)).toOption = some solution.objective := by
      intro hresource
      obtain ⟨hlength, hobjective⟩ := hshares hresource solution hsolve
      unfold dot
      rw [ensureSameLength_eq_ok.mpr (hlength.trans (List.length_map _).symm), innerProduct_comm,
        ← hobjective]
      rfl
    simp only [hsolve, Except.ok.injEq, exists_eq_left']
    cases hresource : p.resource with
    | latency | loss =>
      dsimp only [Constrained.shares]
      rw [hdot (by rw [hresource]; decide), Option.some.injEq, eq_comm]
    | bandwidth => rw [Option.some.injEq, eq_comm]

/-- The best value of a round with a floor is the objective of its program. -/
theorem oracle_eq {ρ : Type} {p : Constrained ρ ℝ} (hresource : p.resource = .bandwidth)
    {means : List (Metric ℝ)} (hm : m ≤ means.length) {program : Program ℝ}
    (hprogram : bandwidthProgram (means.map Metric.latency) (means.map Metric.bandwidth) m
      p.threshold = .ok program) (best : ℝ) :
    p.oracle means m = some best ↔
      ∃ solution, program.solve p.engine = .ok solution ∧ solution.objective = best := by
  have hresourceProgram : resourceProgram p.resource (means.map p.resource.cost)
      (means.map Metric.bandwidth) m p.threshold = .ok program := by
    rw [hresource]
    exact hprogram
  rw [oracle_eq_some_iff hm hresourceProgram fun hcapped => absurd hresource hcapped]
  exact exists_congr fun solution => and_congr_right fun _ => eq_comm

/-- With an exact engine the bandwidth program has a solution exactly when some shares reach the
floor with no latency share above one. The solution then makes the largest latency share as small as
any shares that reach the floor can make it, and this is the best value of a round. -/
theorem bandwidthProgram_solved {engine : Engine ℝ} (hexact : engine.Exact)
    (hlen : costs.length = bandwidths.length) (hne : costs ≠ []) (hcosts : ∀ r ∈ costs, 0 ≤ r)
    (hm : m ≤ costs.length) (floor : ℝ) :
    ∃ program, bandwidthProgram costs bandwidths m floor = .ok program ∧
      ((∃ solution, program.solve engine = .ok solution) ↔
        ∃ x, Floored bandwidths m floor x ∧ ∀ share ∈ latencyShares costs x, share ≤ 1) ∧
      ((∃ x, Floored bandwidths m floor x) ↔
        floor ≤ ((topIndices Scalar.totalLe bandwidths m).map (bandwidths.getD · 0)).sum) ∧
      ((∀ r ∈ costs, r ≤ 1) → ((∃ solution, program.solve engine = .ok solution) ↔
        ∃ x, Floored bandwidths m floor x)) ∧
      (∀ solution, program.solve engine = .ok solution →
        Balanced costs bandwidths m floor solution) ∧
      ∀ {ρ : Type} (p : Constrained ρ ℝ) (means : List (Metric ℝ)), p.engine = engine →
        p.resource = .bandwidth → p.threshold = floor → means.map Metric.latency = costs →
        means.map Metric.bandwidth = bandwidths →
        (p.oracle means m = none ↔
          ¬ ∃ x, Floored bandwidths m floor x ∧ ∀ share ∈ latencyShares costs x, share ≤ 1) ∧
        ∀ best, p.oracle means m = some best →
          IsLeast (worstShares costs bandwidths m floor) best := by
  obtain ⟨program, hprogram, hsolved, hbalanced⟩ :=
    bandwidthProgram_balanced hexact hlen hne hcosts m floor
  refine ⟨program, hprogram, hsolved, exists_floored_iff (hlen ▸ hm), ?_, hbalanced, ?_⟩
  · intro hone
    refine hsolved.trans (exists_congr fun x => and_iff_left_of_imp ?_)
    exact latencyShare_le_one hlen hone
  · intro ρ p means hengine hresource hthreshold hlatency hbandwidth
    subst hengine hthreshold hlatency hbandwidth
    have hm' : m ≤ means.length := by rwa [List.length_map] at hm
    have horacle := oracle_eq hresource hm' hprogram
    constructor
    · rw [← hsolved, Option.eq_none_iff_forall_ne_some, not_exists]
      constructor
      · intro hnone solution hsolution
        exact hnone solution.objective ((horacle _).mpr ⟨solution, hsolution, rfl⟩)
      · intro hnone best hbest
        obtain ⟨solution, hsolution, -⟩ := (horacle best).mp hbest
        exact hnone solution hsolution
    · intro best hbest
      obtain ⟨solution, hsolution, rfl⟩ := (horacle best).mp hbest
      exact (hbalanced solution hsolution).isLeast

/-- One play among paths with the latencies 0.2, 0.5 and 0.9 and the floor 0.4: the latency shares
of all paths are equal. -/
theorem bandwidthProgram_solved_three :
    ∃ (program : Program ℝ) (solution : Solution ℝ),
      bandwidthProgram [0.2, 0.5, 0.9] [0.8, 0.5, 0.2] 1 0.4 = .ok program ∧
      program.solve idealEngine = .ok solution ∧ solution.objective = 9 / 73 ∧
      Constrained.oracle (⟨idealEngine, .bandwidth, 0.4, 0.01, [], ()⟩ : Constrained Unit ℝ)
        [⟨0.2, 0.8, 0⟩, ⟨0.5, 0.5, 0.1⟩, ⟨0.9, 0.2, 0.3⟩] 1 = some (9 / 73) := by
  let costs : List ℝ := [0.2, 0.5, 0.9]
  let bandwidths : List ℝ := [0.8, 0.5, 0.2]
  let x : List ℝ := [45 / 73, 18 / 73, 10 / 73]
  have hlen : costs.length = bandwidths.length := rfl
  have hne : costs ≠ [] := List.cons_ne_nil _ _
  have hm : 1 ≤ costs.length := by decide
  have hcosts : ∀ r ∈ costs, 0 ≤ r := by simp only [costs]; norm_num
  have hx : Floored bandwidths 1 0.4 x := by
    refine ⟨⟨rfl, ?_, ?_⟩, ?_⟩
    · simp only [x, List.forall_mem_cons, List.not_mem_nil]
      norm_num
    · simp only [x, List.sum_cons, List.sum_nil]
      norm_num
    · simp only [x, bandwidths, innerProduct_real, List.zipWith_cons_cons, List.zipWith_nil_right,
        List.sum_cons, List.sum_nil]
      norm_num
  have hequal : ∀ share ∈ latencyShares costs x, share = 9 / 73 := by
    rintro share ⟨i, hi, rfl⟩
    have hi' : i < 3 := hi
    obtain rfl | rfl | rfl : i = 0 ∨ i = 1 ∨ i = 2 := by omega
    all_goals
      simp only [costs, x, List.getD_cons_zero, List.getD_cons_succ]
      norm_num
  have hleast : IsLeast (worstShares costs bandwidths 1 0.4) (9 / 73) :=
    isLeast_of_equal hlen hne (by simp only [costs]; norm_num) hx hequal
  obtain ⟨program, hprogram, hsolved, -, -, hbalanced, horacle⟩ :=
    bandwidthProgram_solved idealEngine_exact hlen hne hcosts hm 0.4
  have hallowed : ∃ x, Floored bandwidths 1 0.4 x ∧ ∀ share ∈ latencyShares costs x, share ≤ 1 := by
    refine ⟨x, hx, fun share hshare => ?_⟩
    rw [hequal share hshare]
    norm_num
  obtain ⟨solution, hsolution⟩ := hsolved.mpr hallowed
  obtain ⟨hnone, hsome⟩ := horacle
    (⟨idealEngine, .bandwidth, 0.4, 0.01, [], ()⟩ : Constrained Unit ℝ)
    [⟨0.2, 0.8, 0⟩, ⟨0.5, 0.5, 0.1⟩, ⟨0.9, 0.2, 0.3⟩] rfl rfl rfl rfl rfl
  refine ⟨program, solution, hprogram, hsolution, ?_, ?_⟩
  · exact (hbalanced solution hsolution).isLeast.unique hleast
  · obtain ⟨best, hbest⟩ := Option.ne_none_iff_exists'.mp fun h => hnone.mp h hallowed
    rw [hbest, (hsome best hbest).unique hleast]

/-- A path of latency two reaches the floor, but its latency share is above what the bound of a
variable allows. -/
theorem bandwidthProgram_fails_above_one :
    idealEngine.Exact ∧ ∃ program : Program ℝ,
      bandwidthProgram [2] [1] 1 0 = .ok program ∧ Floored [1] 1 0 [1] ∧
      IsGreatest (latencyShares [2] [1]) 2 ∧
      ¬ ∃ solution, program.solve idealEngine = .ok solution := by
  have hshares : latencyShares [2] [1] = {2} := by
    ext share
    simp [latencyShares]
  have hx : Floored [1] 1 0 [1] := by
    refine ⟨⟨rfl, by simp, by simp⟩, ?_⟩
    simp [innerProduct_real]
  have hlen : [(2 : ℝ)].length = [(1 : ℝ)].length := rfl
  obtain ⟨program, hprogram, hsolved, -⟩ :=
    bandwidthProgram_balanced idealEngine_exact hlen (List.cons_ne_nil _ _) (by simp) 1 0
  refine ⟨idealEngine_exact, program, hprogram, hx, hshares ▸ isGreatest_singleton, ?_⟩
  rw [hsolved]
  rintro ⟨y, ⟨⟨hlength, -, hsum⟩, -⟩, hone⟩
  obtain ⟨v, rfl⟩ := List.length_eq_one_iff.mp hlength
  have hv : v = 1 := by simpa using hsum
  have htwo : (2 : ℝ) * v ≤ 1 := hone _ ⟨0, by decide, rfl⟩
  linarith

end Program

end PathSelection.Lp
