import PathSelection.Proofs.Lp.Floored

namespace PathSelection.Constrained

open Lp

/-- Whether the value of a round is to be large (a bandwidth) or small (a bound of latencies). -/
def direction : Resource → Direction
  | .latency | .loss => .maximize
  | .bandwidth => .minimize

/-- The values that a round can have: the bandwidths of all shares that keep within a cap, or the
bounds up to one for the latency shares of some shares that reach a floor. -/
def attainable (resource : Resource) (costs bandwidths : List ℝ) (m : ℕ) (bound : ℝ) : Set ℝ :=
  match resource with
  | .latency => {value | ∃ x, LatencyCapped costs m bound x ∧ value = innerProduct bandwidths x}
  | .loss => {value | ∃ x, LossCapped costs m bound x ∧ value = innerProduct bandwidths x}
  | .bandwidth => {value | ∃ x, 0 ≤ value ∧ value ≤ 1 ∧ Shares costs.length m x ∧
      (∀ i < costs.length, costs.getD i 0 * x.getD i 0 ≤ value) ∧ bound ≤ innerProduct bandwidths x}

/-- A higher cap leaves all values attainable. -/
theorem attainable_of_cap_le {resource : Resource} (hresource : resource ≠ .bandwidth)
    {cap cap' : ℝ} (hle : cap ≤ cap') (costs bandwidths : List ℝ) (m : ℕ) :
    attainable resource costs bandwidths m cap ⊆ attainable resource costs bandwidths m cap' := by
  cases resource with
  | latency =>
    rintro value ⟨x, ⟨hshares, hcapped⟩, rfl⟩
    exact ⟨x, ⟨hshares, fun i hi => (hcapped i hi).trans hle⟩, rfl⟩
  | loss =>
    rintro value ⟨x, ⟨hshares, hcapped⟩, rfl⟩
    exact ⟨x, ⟨hshares, hcapped.trans hle⟩, rfl⟩
  | bandwidth => exact absurd rfl hresource

/-- So does a lower floor. -/
theorem attainable_of_le_floor {floor floor' : ℝ} (hle : floor ≤ floor')
    (costs bandwidths : List ℝ) (m : ℕ) :
    attainable .bandwidth costs bandwidths m floor' ⊆
      attainable .bandwidth costs bandwidths m floor := by
  rintro value ⟨x, hlow, hhigh, hshares, hbound, hfloor⟩
  exact ⟨x, hlow, hhigh, hshares, hbound, hle.trans hfloor⟩

/-- No capped round is worth more than the paths of the greatest bandwidths. -/
theorem le_of_attainable {resource : Resource} (hresource : resource ≠ .bandwidth)
    {costs bandwidths : List ℝ} {m : ℕ} {cap value : ℝ}
    (hlen : costs.length = bandwidths.length) (hm : m ≤ bandwidths.length)
    (hvalue : value ∈ attainable resource costs bandwidths m cap) :
    value ≤ ((topIndices Scalar.totalLe bandwidths m).map (bandwidths.getD · 0)).sum := by
  have hshares : ∃ x, Shares costs.length m x ∧ value = innerProduct bandwidths x := by
    cases resource with
    | latency | loss =>
      obtain ⟨x, ⟨hshares, -⟩, hx⟩ := hvalue
      exact ⟨x, hshares, hx⟩
    | bandwidth => exact absurd rfl hresource
  rw [hlen] at hshares
  exact (isGreatest_topIndices hm).2 hshares

/-- A program that caps a cost is about the bandwidths of the shares that it admits. -/
theorem values_of_capped {costs bandwidths : List ℝ} {m : ℕ} {keeps : List ℝ → Prop}
    {program : Program ℝ} (hlen : costs.length = bandwidths.length)
    (hcosts : program.costs = bandwidths)
    (hadmits : ∀ x, program.problem.Admits x ↔ Shares costs.length m x ∧ keeps x) :
    (∀ value, (∃ x, (Shares costs.length m x ∧ keeps x) ∧ value = innerProduct bandwidths x) ↔
      ∃ point, program.problem.Admits point ∧ value = innerProduct program.costs point) ∧
      ∀ point, program.problem.Admits point → point.length = bandwidths.length := by
  constructor
  · intro value
    rw [hcosts]
    exact exists_congr fun x => and_congr_left fun _ => (hadmits x).symm
  · intro point hpoint
    exact ((hadmits point).mp hpoint).1.length_eq.trans hlen

/-- The program of a resource is about the attainable values: each point that it admits has one of
them, and they are all had by some point. -/
theorem resourceProgram_attainable (resource : Resource) {costs bandwidths : List ℝ}
    (hlen : costs.length = bandwidths.length) (m : ℕ) (bound : ℝ) :
    ∃ program, resourceProgram resource costs bandwidths m bound = .ok program ∧
      program.direction = direction resource ∧ program.total = m ∧
      (∀ value, value ∈ attainable resource costs bandwidths m bound ↔
        ∃ point, program.problem.Admits point ∧ value = innerProduct program.costs point) ∧
      (resource ≠ .bandwidth → program.costs = bandwidths ∧
        ∀ point, program.problem.Admits point → point.length = bandwidths.length) := by
  cases resource with
  | latency =>
    obtain ⟨program, hprogram, hdirection, hcosts, htotal, hadmits⟩ :=
      latencyProgram_admits hlen m bound
    obtain ⟨hvalues, hlength⟩ := values_of_capped hlen hcosts hadmits
    exact ⟨program, hprogram, hdirection, htotal, hvalues, fun _ => ⟨hcosts, hlength⟩⟩
  | loss =>
    obtain ⟨program, hprogram, hdirection, hcosts, htotal, hadmits⟩ :=
      lossProgram_admits hlen m bound
    obtain ⟨hvalues, hlength⟩ := values_of_capped hlen hcosts hadmits
    exact ⟨program, hprogram, hdirection, htotal, hvalues, fun _ => ⟨hcosts, hlength⟩⟩
  | bandwidth =>
    obtain ⟨program, hprogram, hdirection, htotal, hcosts, hadmits⟩ :=
      bandwidthProgram_admits hlen m bound
    refine ⟨program, hprogram, hdirection, htotal, fun value => ?_, fun h => absurd rfl h⟩
    constructor
    · rintro ⟨x, hx⟩
      exact ⟨value :: x, (hadmits _).mpr ⟨value, x, rfl, hx⟩, (hcosts value x).symm⟩
    · rintro ⟨point, hpoint, rfl⟩
      obtain ⟨u, x, rfl, hx⟩ := (hadmits point).mp hpoint
      rw [hcosts]
      exact ⟨x, hx⟩

section Oracle

variable {ρ : Type} {p q : Constrained ρ ℝ} {means : List (Metric ℝ)} {m : ℕ}

theorem le_of_oracle {v : ℝ} (h : p.oracle means m = some v) : m ≤ means.length := by
  by_contra hm
  unfold Constrained.oracle at h
  rw [if_pos (Nat.not_le.mp hm)] at h
  exact absurd h (Option.some_ne_none v).symm

/-- With an exact engine a round has a best value exactly when it can have any value, and no
attainable value is better. -/
theorem oracle_best (hexact : p.engine.Exact) (hm : m ≤ means.length) :
    let values := attainable p.resource (means.map p.resource.cost) (means.map Metric.bandwidth) m
      p.threshold
    ((∃ v, p.oracle means m = some v) ↔ values.Nonempty) ∧
      ∀ v, p.oracle means m = some v →
        v ∈ values ∧ ∀ w ∈ values, (direction p.resource).Prefers v w := by
  intro values
  have hlen : (means.map p.resource.cost).length = (means.map Metric.bandwidth).length := by
    rw [List.length_map, List.length_map]
  obtain ⟨program, hprogram, hdirection, htotal, hvalues, hshares⟩ :=
    resourceProgram_attainable p.resource hlen m p.threshold
  obtain ⟨hsolved, hoptimal⟩ := program.solve_exact hexact (eq_zero_of_small htotal)
  have horacle := oracle_eq_some_iff hm hprogram fun hresource solution hsolution => by
    obtain ⟨hcosts, hlength⟩ := hshares hresource
    obtain ⟨hpoint, hobjective, -⟩ := hoptimal solution hsolution
    exact ⟨(hlength _ hpoint).trans (List.length_map _), hcosts ▸ hobjective⟩
  constructor
  · calc (∃ v, p.oracle means m = some v)
        ↔ ∃ solution, program.solve p.engine = .ok solution := by
          simp only [horacle]
          exact ⟨fun ⟨_, solution, hsolution, _⟩ => ⟨solution, hsolution⟩,
            fun ⟨solution, hsolution⟩ => ⟨_, solution, hsolution, rfl⟩⟩
      _ ↔ ∃ point, program.problem.Admits point := hsolved
      _ ↔ values.Nonempty := by
          constructor
          · rintro ⟨point, hpoint⟩
            exact ⟨_, (hvalues _).mpr ⟨point, hpoint, rfl⟩⟩
          · rintro ⟨value, hvalue⟩
            obtain ⟨point, hpoint, -⟩ := (hvalues value).mp hvalue
            exact ⟨point, hpoint⟩
  · intro v hv
    obtain ⟨solution, hsolution, rfl⟩ := (horacle v).mp hv
    obtain ⟨hpoint, hobjective, hprefers⟩ := hoptimal solution hsolution
    refine ⟨(hvalues _).mpr ⟨_, hpoint, hobjective⟩, fun w hw => ?_⟩
    obtain ⟨point, hadmits, rfl⟩ := (hvalues w).mp hw
    exact hdirection ▸ hprefers point hadmits

/-- Where more values are attainable, the best one is at least as good. -/
theorem exists_oracle_of_subset (hp : p.engine.Exact) (hq : q.engine.Exact) {v : ℝ}
    (hv : p.oracle means m = some v)
    (hsubset : attainable p.resource (means.map p.resource.cost) (means.map Metric.bandwidth) m
        p.threshold ⊆
      attainable q.resource (means.map q.resource.cost) (means.map Metric.bandwidth) m
        q.threshold) :
    ∃ w, q.oracle means m = some w ∧ (direction q.resource).Prefers w v := by
  have hm := le_of_oracle hv
  have hmem := hsubset ((oracle_best hp hm).2 v hv).1
  obtain ⟨hsome, hbest⟩ := oracle_best hq hm
  obtain ⟨w, hw⟩ := hsome.mpr ⟨v, hmem⟩
  exact ⟨w, hw, (hbest w hw).2 v hmem⟩

/-- With exact engines a tighter threshold never improves the best value of a round. Where a cap
leaves a best value, so does a higher cap, with a value at least as large, and none is above the sum
of the greatest bandwidths; where a floor leaves one, so does a lower floor, with a value at most as
large. -/
theorem oracle_tightens (hp : p.engine.Exact) (hq : q.engine.Exact)
    (hresource : p.resource = q.resource) (hle : p.threshold ≤ q.threshold)
    (means : List (Metric ℝ)) (m : ℕ) :
    (p.resource = .latency ∨ p.resource = .loss → ∀ u, p.oracle means m = some u →
      (∃ v, q.oracle means m = some v ∧ u ≤ v) ∧
        ∃ best, bestBandwidth means m = some best ∧ u ≤ best) ∧
      (p.resource = .bandwidth → ∀ v, q.oracle means m = some v →
        ∃ u, p.oracle means m = some u ∧ u ≤ v) := by
  constructor
  · intro hcapped u hu
    have hcap : p.resource ≠ .bandwidth := by
      rcases hcapped with h | h <;> rw [h] <;> decide
    have hmaximize : direction q.resource = .maximize := by
      rw [← hresource]
      rcases hcapped with h | h <;> rw [h] <;> rfl
    constructor
    · obtain ⟨v, hv, hprefers⟩ := exists_oracle_of_subset hp hq hu (by
        rw [← hresource]
        exact attainable_of_cap_le hcap hle _ _ m)
      rw [hmaximize] at hprefers
      exact ⟨v, hv, hprefers⟩
    · have hm := le_of_oracle hu
      unfold bestBandwidth
      rw [if_neg (Nat.not_lt.mpr hm)]
      refine ⟨_, rfl, ?_⟩
      rw [Scalar.sum_real, Scalar.zero_real]
      exact le_of_attainable hcap (by rw [List.length_map, List.length_map])
        (hm.trans_eq (List.length_map _).symm) ((oracle_best hp hm).2 u hu).1
  · intro hfloor v hv
    have hminimize : direction p.resource = .minimize := by
      rw [hfloor]
      rfl
    obtain ⟨u, hu, hprefers⟩ := exists_oracle_of_subset hq hp hv (by
      rw [← hresource, hfloor]
      exact attainable_of_le_floor hle _ _ m)
    rw [hminimize] at hprefers
    exact ⟨u, hu, hprefers⟩

/-- A policy with an ideal engine. Its paths do not matter to the best value. -/
noncomputable def ideal (resource : Resource) (threshold : ℝ) : Constrained Unit ℝ :=
  ⟨idealEngine, resource, threshold, 0, [], ()⟩

/-- Three paths with the latencies 0.2, 0.5 and 0.9: two plays with the caps 0.4 and 0.5, and one
play with the floors 0.4 and 0.5. -/
theorem oracle_tightens_three :
    let means : List (Metric ℝ) := [⟨0.2, 0.8, 0⟩, ⟨0.5, 0.5, 0.1⟩, ⟨0.9, 0.2, 0.3⟩]
    (∃ u v best, (ideal .latency 0.4).oracle means 2 = some u ∧
      (ideal .latency 0.5).oracle means 2 = some v ∧ bestBandwidth means 2 = some best ∧
      u ≤ v ∧ u ≤ best) ∧
      ∃ u v, (ideal .bandwidth 0.4).oracle means 1 = some u ∧
        (ideal .bandwidth 0.5).oracle means 1 = some v ∧ u ≤ v := by
  intro means
  constructor
  · have hshares : LatencyCapped [0.2, 0.5, 0.9] 2 0.4 [1, 0.8, 0.2] := by
      refine ⟨⟨rfl, ?_, ?_⟩, ?_⟩
      · simp only [List.forall_mem_cons, List.not_mem_nil]
        norm_num
      · simp only [List.sum_cons, List.sum_nil]
        norm_num
      · intro i hi
        have hi' : i < 3 := hi
        obtain rfl | rfl | rfl : i = 0 ∨ i = 1 ∨ i = 2 := by omega
        all_goals
          simp only [List.getD_cons_zero, List.getD_cons_succ]
          norm_num
    have hm : 2 ≤ means.length := by decide
    have hexact : (ideal .latency 0.4).engine.Exact := idealEngine_exact
    obtain ⟨u, hu⟩ := (oracle_best hexact hm).1.mpr ⟨_, _, hshares, rfl⟩
    obtain ⟨hcapped, -⟩ := oracle_tightens (q := ideal .latency 0.5) hexact idealEngine_exact rfl
      (by simp only [ideal]; norm_num) means 2
    obtain ⟨⟨v, hv, huv⟩, best, hbest, hubest⟩ := hcapped (Or.inl rfl) u hu
    exact ⟨u, v, best, hu, hv, hbest, huv, hubest⟩
  · have hvalue : (1 : ℝ) ∈ attainable .bandwidth [0.2, 0.5, 0.9] [0.8, 0.5, 0.2] 1 0.5 := by
      refine ⟨[1, 0, 0], zero_le_one, le_rfl, ⟨rfl, by simp, by simp⟩, ?_, ?_⟩
      · intro i hi
        have hi' : i < 3 := hi
        obtain rfl | rfl | rfl : i = 0 ∨ i = 1 ∨ i = 2 := by omega
        all_goals
          simp only [List.getD_cons_zero, List.getD_cons_succ]
          norm_num
      · simp only [innerProduct_real, List.zipWith_cons_cons, List.zipWith_nil_right, List.sum_cons,
          List.sum_nil]
        norm_num
    have hm : 1 ≤ means.length := by decide
    have hexact : (ideal .bandwidth 0.5).engine.Exact := idealEngine_exact
    obtain ⟨v, hv⟩ := (oracle_best hexact hm).1.mpr ⟨1, hvalue⟩
    obtain ⟨-, hfloor⟩ := oracle_tightens (p := ideal .bandwidth 0.4) idealEngine_exact hexact rfl
      (by simp only [ideal]; norm_num) means 1
    obtain ⟨u, hu, huv⟩ := hfloor rfl v hv
    exact ⟨u, v, hu, hv, huv⟩

end Oracle

end PathSelection.Constrained
