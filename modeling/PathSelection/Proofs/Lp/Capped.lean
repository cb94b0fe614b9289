import Mathlib.Order.Bounds.Basic
import PathSelection.Proofs.Lp.Shares

namespace PathSelection.Lp

section Order

variable {values limits x : List ℝ} {order : List ℕ} {m : ℕ} {total : ℝ}

theorem pairwise_ranked {le : ℝ → ℝ → Bool} (h : order.Pairwise (Precedes le values)) :
    (order.map (values.getD · 0)).Pairwise fun a b => le a b = true := by
  rw [List.pairwise_map]
  apply h.imp
  rintro i j ⟨hi, hj, hle, -⟩
  rw [List.getD_eq_getElem _ 0 hi, List.getD_eq_getElem _ 0 hj]
  exact hle

/-- All paths in the order of descending values. -/
noncomputable def descendingOrder (values : List ℝ) : List ℕ :=
  topIndices Scalar.totalLe values values.length

theorem descendingOrder_perm (values : List ℝ) :
    (descendingOrder values).Perm (List.range values.length) := by
  unfold descendingOrder topIndices firstIndices
  rw [List.take_of_length_le (length_ranking _ _).le]
  exact ranking_perm _ _

theorem pairwise_descendingOrder (values : List ℝ) :
    ((descendingOrder values).map (values.getD · 0)).Pairwise (· ≥ ·) := by
  have hleading : Leading (fun a b => Scalar.totalLe b a) values values.length
      (descendingOrder values) :=
    leading_firstIndices (fun a b c hab hbc => Scalar.totalLe_trans_real c b a hbc hab)
      (fun a b => Scalar.totalLe_total_real b a) le_rfl
  exact (pairwise_ranked hleading.ascending).imp fun h => Scalar.totalLe_real.mp h

/-- The value of filling the paths in the order of descending values. -/
noncomputable def greedyValue (values limits : List ℝ) (total : ℝ) : ℝ :=
  innerProduct ((descendingOrder values).map (values.getD · 0))
    (filling total ((descendingOrder values).map (limits.getD · 0)))

theorem isGreatest_greedyValue (hlen : values.length = limits.length)
    (hlimits : ∀ limit ∈ limits, 0 ≤ limit) (htotal : 0 ≤ total) (hsum : total ≤ limits.sum) :
    IsGreatest {value | ∃ x, Within limits total x ∧ value = innerProduct values x}
      (greedyValue values limits total) := by
  have horder : (descendingOrder values).Perm (List.range limits.length) :=
    hlen ▸ descendingOrder_perm values
  exact isGreatest_filling horder (pairwise_descendingOrder values) hlimits htotal hsum

theorem bounded_iff : List.Forall₂ (fun v limit => 0 ≤ v ∧ v ≤ limit) x limits ↔
    x.length = limits.length ∧
      ∀ i < limits.length, 0 ≤ x.getD i 0 ∧ x.getD i 0 ≤ limits.getD i 0 := by
  constructor
  · intro h
    have hlen := h.length_eq
    refine ⟨hlen, fun i hi => ?_⟩
    rw [← bounded_visit hlen (List.Perm.refl _), List.forall₂_map_left_iff,
      List.forall₂_map_right_iff, List.forall₂_same] at h
    exact h i (List.mem_range.mpr hi)
  · rintro ⟨hlen, h⟩
    rw [← bounded_visit hlen (List.Perm.refl _), List.forall₂_map_left_iff,
      List.forall₂_map_right_iff, List.forall₂_same]
    exact fun i hi => h i (List.mem_range.mp hi)

/-- Shares are what lies within limits of one. -/
theorem shares_iff_within {k : ℕ} :
    Shares k m x ↔ Within (List.replicate k 1) m x := by
  have hone : ∀ i < k, (List.replicate k (1 : ℝ)).getD i 0 = 1 := by
    intro i hi
    rw [List.getD_eq_getElem _ 0 (List.length_replicate.symm ▸ hi), List.getElem_replicate]
  constructor
  · rintro ⟨rfl, hunit, hsum⟩
    refine ⟨bounded_iff.mpr ⟨List.length_replicate.symm, fun i hi => ?_⟩, hsum⟩
    rw [List.length_replicate] at hi
    rw [hone i hi]
    exact forall_mem_iff_getD.mp hunit i hi
  · rintro ⟨hbounded, hsum⟩
    obtain ⟨hx, hlimits⟩ := bounded_iff.mp hbounded
    rw [List.length_replicate] at hx hlimits
    refine ⟨hx, forall_mem_iff_getD.mpr fun i hi => ?_, hsum⟩
    have hi' : i < k := hx ▸ hi
    rw [← hone i hi']
    exact hlimits i hi'

/-- The greatest value of shares is that of the first `m` paths in descending order. -/
theorem isGreatest_take (horder : order.Perm (List.range values.length))
    (hdesc : (order.map (values.getD · 0)).Pairwise (· ≥ ·)) (hm : m ≤ values.length) :
    IsGreatest {value | ∃ x, Shares values.length m x ∧ value = innerProduct values x}
      ((order.take m).map (values.getD · 0)).sum := by
  have hcount : order.length = values.length := horder.length_eq.trans List.length_range
  have hones : order.map ((List.replicate values.length (1 : ℝ)).getD · 0) =
      order.map fun _ => 1 := by
    apply List.map_congr_left
    intro i hi
    have hlt : i < values.length := List.mem_range.mp (horder.mem_iff.mp hi)
    rw [List.getD_eq_getElem _ 0 (List.length_replicate.symm ▸ hlt), List.getElem_replicate]
  have hsum : (m : ℝ) ≤ (List.replicate values.length (1 : ℝ)).sum := by
    rw [List.sum_replicate, nsmul_eq_mul, mul_one]
    exact_mod_cast hm
  have hlimits : ∀ limit ∈ List.replicate values.length (1 : ℝ), 0 ≤ limit :=
    fun limit hlimit => (List.eq_of_mem_replicate hlimit).symm ▸ zero_le_one
  have hgreatest := isGreatest_filling (by rw [List.length_replicate]; exact horder) hdesc hlimits
    (Nat.cast_nonneg m) hsum
  rw [hones, innerProduct_filling_ones values (hcount.symm ▸ hm)] at hgreatest
  simp only [shares_iff_within]
  exact hgreatest

theorem isGreatest_topIndices (hm : m ≤ values.length) :
    IsGreatest {value | ∃ x, Shares values.length m x ∧ value = innerProduct values x}
      ((topIndices Scalar.totalLe values m).map (values.getD · 0)).sum := by
  have htake : topIndices Scalar.totalLe values m = (descendingOrder values).take m := by
    unfold descendingOrder topIndices firstIndices
    rw [List.take_take, min_eq_left hm]
  rw [htake]
  exact isGreatest_take (descendingOrder_perm values) (pairwise_descendingOrder values) hm

/-- The least value of shares is that of the `m` paths of the smallest values. -/
theorem isLeast_bottomIndices (hm : m ≤ values.length) :
    IsLeast {value | ∃ x, Shares values.length m x ∧ value = innerProduct values x}
      ((bottomIndices Scalar.totalLe values m).map (values.getD · 0)).sum := by
  -- The smallest values are the largest ones after a change of sign.
  let negated := values.map fun v => -v
  let order := ranking Scalar.totalLe values
  have hlen : negated.length = values.length := List.length_map _
  have hgetD : (negated.getD · 0) = fun i => -1 * values.getD i 0 := by
    funext i
    rw [List.getD_eq_getElem?_getD, List.getElem?_map, List.getD_eq_getElem?_getD]
    cases values[i]? <;> simp
  have horder : order.Perm (List.range negated.length) := hlen.symm ▸ ranking_perm _ _
  have hdesc : (order.map (negated.getD · 0)).Pairwise (· ≥ ·) := by
    have hascending := pairwise_ranked
      (pairwise_ranking Scalar.totalLe_trans_real Scalar.totalLe_total_real values)
    rw [List.pairwise_map] at hascending
    rw [hgetD, List.pairwise_map]
    apply hascending.imp
    intro i j hij
    have hle := Scalar.totalLe_real.mp hij
    linarith
  obtain ⟨⟨x, hx, hvalue⟩, hupper⟩ := isGreatest_take horder hdesc (hlen.symm ▸ hm)
  rw [hlen] at hx hupper
  rw [hgetD, List.sum_map_mul_left] at hvalue hupper
  rw [innerProduct_neg] at hvalue
  constructor
  · refine ⟨x, hx, ?_⟩
    unfold bottomIndices firstIndices
    linarith
  · rintro value ⟨y, hy, rfl⟩
    have hle := hupper ⟨y, hy, rfl⟩
    rw [innerProduct_neg] at hle
    unfold bottomIndices firstIndices
    linarith

end Order

section Capped

/-- The most that a path may get when its latency share is capped. -/
noncomputable def ceiling (cap latency : ℝ) : ℝ := if latency = 0 then 1 else min 1 (cap / latency)

theorem ceiling_nonneg {cap : ℝ} (hcap : 0 ≤ cap) {r : ℝ} (hr : 0 ≤ r) : 0 ≤ ceiling cap r := by
  unfold ceiling
  split
  · exact zero_le_one
  · exact le_min zero_le_one (div_nonneg hcap hr)

theorem le_ceiling_iff {cap : ℝ} (hcap : 0 ≤ cap) {r : ℝ} (hr : 0 ≤ r) (x : ℝ) :
    x ≤ ceiling cap r ↔ x ≤ 1 ∧ r * x ≤ cap := by
  unfold ceiling
  split
  · next hzero =>
    rw [hzero, zero_mul]
    exact (and_iff_left hcap).symm
  · next hne =>
    have hpos : 0 < r := lt_of_le_of_ne hr (Ne.symm hne)
    rw [le_min_iff, le_div_iff₀ hpos, mul_comm x r]

/-- A solution whose point is allowed and has the greatest value of all allowed ones. -/
structure Best (allowed : List ℝ → Prop) (values : List ℝ) (solution : Solution ℝ) : Prop where
  allowed_point : allowed solution.point
  objective_eq : solution.objective = innerProduct values solution.point
  le_value : ∀ x, allowed x → innerProduct values x ≤ innerProduct values solution.point

variable {costs bandwidths x : List ℝ} {m : ℕ} {cap : ℝ}

/-- A number of plays leaves no room for rounding. -/
theorem eq_zero_of_small {total : ℝ} (htotal : total = m) (hsmall : |total| ≤ 1e-12) :
    total = 0 := by
  rw [htotal, Nat.abs_cast] at hsmall
  have hlt : (m : ℝ) < 1 := hsmall.trans_lt (by norm_num)
  have hzero : m = 0 := Nat.lt_one_iff.mp (by exact_mod_cast hlt)
  rw [htotal, hzero, Nat.cast_zero]

theorem solve_best {engine : Engine ℝ} (hexact : engine.Exact) {program : Program ℝ}
    (hdirection : program.direction = .maximize) (hcosts : program.costs = bandwidths)
    (htotal : program.total = m) {allowed : List ℝ → Prop}
    (hadmits : ∀ x, program.problem.Admits x ↔ allowed x) :
    ((∃ solution, program.solve engine = .ok solution) ↔ ∃ x, allowed x) ∧
      ∀ solution, program.solve engine = .ok solution → Best allowed bandwidths solution := by
  obtain ⟨hiff, hoptimal⟩ := program.solve_exact hexact (eq_zero_of_small htotal)
  refine ⟨hiff.trans (exists_congr hadmits), fun solution hsolution => ?_⟩
  obtain ⟨hpoint, hobjective, hprefers⟩ := hoptimal solution hsolution
  have hvalue : solution.objective = innerProduct bandwidths solution.point := hcosts ▸ hobjective
  refine ⟨(hadmits _).mp hpoint, hvalue, fun x hx => ?_⟩
  have hle := hprefers x ((hadmits x).mpr hx)
  unfold Program.problem at hle
  rw [hdirection, hcosts, hvalue] at hle
  exact hle

/-- Shares whose latency shares are capped. -/
def LatencyCapped (costs : List ℝ) (m : ℕ) (cap : ℝ) (x : List ℝ) : Prop :=
  Shares costs.length m x ∧ ∀ i < costs.length, costs.getD i 0 * x.getD i 0 ≤ cap

/-- Shares whose total loss is capped. -/
def LossCapped (costs : List ℝ) (m : ℕ) (cap : ℝ) (x : List ℝ) : Prop :=
  Shares costs.length m x ∧ innerProduct costs x ≤ cap

theorem getD_nonneg (hcosts : ∀ r ∈ costs, 0 ≤ r) (i : ℕ) : 0 ≤ costs.getD i 0 := by
  rcases lt_or_ge i costs.length with hi | hi
  · exact forall_mem_iff_getD.mp hcosts i hi
  · rw [List.getD_eq_default _ 0 hi]

theorem latencyCapped_iff_within (hcosts : ∀ r ∈ costs, 0 ≤ r) (hcap : 0 ≤ cap) :
    LatencyCapped costs m cap x ↔ Within (costs.map (ceiling cap)) m x := by
  have hceiling : ∀ i < costs.length, ∀ v, (v ≤ (costs.map (ceiling cap)).getD i 0 ↔
      v ≤ 1 ∧ costs.getD i 0 * v ≤ cap) := by
    intro i hi v
    have hi' : i < (costs.map (ceiling cap)).length := (List.length_map _).symm ▸ hi
    rw [List.getD_eq_getElem _ 0 hi', List.getElem_map, ← List.getD_eq_getElem _ 0 hi,
      le_ceiling_iff hcap (getD_nonneg hcosts i)]
  constructor
  · rintro ⟨⟨hx, hunit, hsum⟩, hcapped⟩
    refine ⟨bounded_iff.mpr ⟨hx.trans (List.length_map _).symm, fun i hi => ?_⟩, hsum⟩
    rw [List.length_map] at hi
    obtain ⟨hlow, hhigh⟩ := forall_mem_iff_getD.mp hunit i (hx.symm ▸ hi)
    exact ⟨hlow, (hceiling i hi _).mpr ⟨hhigh, hcapped i hi⟩⟩
  · rintro ⟨hbounded, hsum⟩
    obtain ⟨hx, hlimits⟩ := bounded_iff.mp hbounded
    rw [List.length_map] at hx hlimits
    refine ⟨⟨hx, forall_mem_iff_getD.mpr fun i hi => ?_, hsum⟩, fun i hi => ?_⟩
    · have hi' : i < costs.length := hx ▸ hi
      exact ⟨(hlimits i hi').1, ((hceiling i hi' _).mp (hlimits i hi').2).1⟩
    · exact ((hceiling i hi _).mp (hlimits i hi).2).2

theorem ceilings_nonneg (hcosts : ∀ r ∈ costs, 0 ≤ r) (hcap : 0 ≤ cap) :
    ∀ limit ∈ costs.map (ceiling cap), 0 ≤ limit := by
  rw [List.forall_mem_map]
  exact fun r hr => ceiling_nonneg hcap (hcosts r hr)

/-- A latency share is never negative, so with any path at all the cap has to be at least zero. -/
theorem LatencyCapped.cap_nonneg (hcosts : ∀ r ∈ costs, 0 ≤ r) (h : LatencyCapped costs m cap x)
    (hne : costs ≠ []) : 0 ≤ cap := by
  obtain ⟨⟨hx, hunit, -⟩, hcapped⟩ := h
  have hpos : 0 < costs.length := List.length_pos_iff.mpr hne
  have hshare := (forall_mem_iff_getD.mp hunit 0 (hx.symm ▸ hpos)).1
  exact (mul_nonneg (getD_nonneg hcosts 0) hshare).trans (hcapped 0 hpos)

theorem exists_latencyCapped_iff (hcosts : ∀ r ∈ costs, 0 ≤ r) (hm : m ≤ costs.length) :
    (∃ x, LatencyCapped costs m cap x) ↔
      costs = [] ∨ 0 ≤ cap ∧ (m : ℝ) ≤ (costs.map (ceiling cap)).sum := by
  rcases eq_or_ne costs [] with rfl | hne
  · -- Without paths there is nothing to cap, and the cap may be negative.
    refine iff_of_true ⟨[], ⟨rfl, by simp, ?_⟩, by simp⟩ (Or.inl rfl)
    rw [Nat.le_zero.mp hm, List.sum_nil, Nat.cast_zero]
  rw [or_iff_right hne]
  constructor
  · rintro ⟨x, hx⟩
    have hcap := hx.cap_nonneg hcosts hne
    refine ⟨hcap, ?_⟩
    rw [← exists_within_iff (ceilings_nonneg hcosts hcap) (Nat.cast_nonneg m)]
    exact ⟨x, (latencyCapped_iff_within hcosts hcap).mp hx⟩
  · rintro ⟨hcap, hsum⟩
    obtain ⟨x, hx⟩ :=
      (exists_within_iff (ceilings_nonneg hcosts hcap) (Nat.cast_nonneg m)).mpr hsum
    exact ⟨x, (latencyCapped_iff_within hcosts hcap).mpr hx⟩

theorem Best.isGreatest {allowed : List ℝ → Prop} {values : List ℝ} {solution : Solution ℝ}
    (h : Best allowed values solution) :
    IsGreatest {value | ∃ x, allowed x ∧ value = innerProduct values x} solution.objective := by
  refine ⟨⟨_, h.allowed_point, h.objective_eq⟩, ?_⟩
  rintro value ⟨x, hx, rfl⟩
  exact h.objective_eq ▸ h.le_value x hx

/-- The best shares with capped latency shares are worth as much as the greedy filling. -/
theorem Best.eq_greedyValue (hlen : costs.length = bandwidths.length)
    (hcosts : ∀ r ∈ costs, 0 ≤ r) {solution : Solution ℝ}
    (h : Best (LatencyCapped costs m cap) bandwidths solution) :
    solution.objective = greedyValue bandwidths (costs.map (ceiling cap)) m := by
  have hgreatest := h.isGreatest
  rcases eq_or_ne costs [] with rfl | hne
  · -- Without paths both are zero, whatever the cap.
    obtain rfl := List.length_eq_zero_iff.mp hlen.symm
    rw [h.objective_eq]
    simp [greedyValue, descendingOrder, topIndices, firstIndices, ranking, innerProduct_real]
  have hcap := h.allowed_point.cap_nonneg hcosts hne
  have hwithin := (latencyCapped_iff_within hcosts hcap).mp h.allowed_point
  have hsum := (exists_within_iff (ceilings_nonneg hcosts hcap) (Nat.cast_nonneg m)).mp ⟨_, hwithin⟩
  simp only [latencyCapped_iff_within hcosts hcap] at hgreatest
  exact hgreatest.unique (isGreatest_greedyValue (hlen.symm.trans (List.length_map _).symm)
    (ceilings_nonneg hcosts hcap) (Nat.cast_nonneg m) hsum)

theorem exists_lossCapped_iff (hm : m ≤ costs.length) :
    (∃ x, LossCapped costs m cap x) ↔
      ((bottomIndices Scalar.totalLe costs m).map (costs.getD · 0)).sum ≤ cap := by
  obtain ⟨⟨least, hleast, hvalue⟩, hlower⟩ := isLeast_bottomIndices hm
  constructor
  · rintro ⟨x, hx, hcapped⟩
    exact (hlower ⟨x, hx, rfl⟩).trans hcapped
  · intro hsum
    exact ⟨least, hleast, hvalue ▸ hsum⟩

/-- With an exact engine the programs that cap a cost have a solution exactly when the cap leaves
room for `m` plays, and the solution is the best of all shares that meet the cap. -/
theorem cappedPrograms_solved {engine : Engine ℝ} (hexact : engine.Exact)
    (hlen : costs.length = bandwidths.length) (hm : m ≤ costs.length) (cap : ℝ) :
    ((∀ r ∈ costs, 0 ≤ r) → ∃ program, latencyProgram costs bandwidths m cap = .ok program ∧
      ((∃ solution, program.solve engine = .ok solution) ↔
        costs = [] ∨ 0 ≤ cap ∧ (m : ℝ) ≤ (costs.map (ceiling cap)).sum) ∧
      ∀ solution, program.solve engine = .ok solution →
        solution.objective = greedyValue bandwidths (costs.map (ceiling cap)) m ∧
          Best (LatencyCapped costs m cap) bandwidths solution) ∧
    ∃ program, lossProgram costs bandwidths m cap = .ok program ∧
      ((∃ solution, program.solve engine = .ok solution) ↔
        ((bottomIndices Scalar.totalLe costs m).map (costs.getD · 0)).sum ≤ cap) ∧
      ∀ solution, program.solve engine = .ok solution →
        Best (LossCapped costs m cap) bandwidths solution := by
  constructor
  · intro hcosts
    obtain ⟨program, hprogram, hdirection, hvalues, htotal, hadmits⟩ :=
      latencyProgram_admits hlen m cap
    obtain ⟨hsolved, hbest⟩ := solve_best hexact hdirection hvalues htotal hadmits
    refine ⟨program, hprogram, hsolved.trans (exists_latencyCapped_iff hcosts hm), ?_⟩
    intro solution hsolution
    have h : Best (LatencyCapped costs m cap) bandwidths solution := hbest solution hsolution
    exact ⟨h.eq_greedyValue hlen hcosts, h⟩
  · obtain ⟨program, hprogram, hdirection, hvalues, htotal, hadmits⟩ :=
      lossProgram_admits hlen m cap
    obtain ⟨hsolved, hbest⟩ := solve_best hexact hdirection hvalues htotal hadmits
    exact ⟨program, hprogram, hsolved.trans (exists_lossCapped_iff hm), hbest⟩

/-- Two plays among paths with the latencies 0.2, 0.5 and 0.9 and the cap 0.4: the second path gets
0.8 and the third one the rest. The total loss of two plays is at least 0.7. -/
theorem cappedPrograms_solved_three :
    ∃ latency loss : Program ℝ, ∃ solution,
      latencyProgram [0.2, 0.5, 0.9] [0.8, 0.5, 0.2] 2 0.4 = .ok latency ∧
      latency.solve idealEngine = .ok solution ∧ solution.objective = 1.24 ∧
      lossProgram [0.2, 0.5, 0.9] [0.8, 0.5, 0.2] 2 0.4 = .ok loss ∧
      ¬ ∃ solution, loss.solve idealEngine = .ok solution := by
  let costs : List ℝ := [0.2, 0.5, 0.9]
  let bandwidths : List ℝ := [0.8, 0.5, 0.2]
  have hlimits : costs.map (ceiling 0.4) = [1, 0.8, 4 / 9] := by
    simp only [costs, ceiling, List.map_cons, List.map_nil]
    norm_num
  have horder : descendingOrder bandwidths = [0, 1, 2] := by
    unfold descendingOrder topIndices firstIndices
    rw [ranking_of_pairwise]
    · rfl
    · simp only [bandwidths, Scalar.totalLe_real, List.pairwise_cons]
      norm_num
  have hbottom : bottomIndices Scalar.totalLe costs 2 = [0, 1] := by
    unfold bottomIndices firstIndices
    rw [ranking_of_pairwise]
    · rfl
    · simp only [costs, Scalar.totalLe_real, List.pairwise_cons]
      norm_num
  have hgreedy : greedyValue bandwidths [1, 0.8, 4 / 9] 2 = 1.24 := by
    unfold greedyValue
    rw [horder]
    simp only [bandwidths, List.map_cons, List.map_nil, List.getD_cons_zero, List.getD_cons_succ,
      filling, innerProduct_real, List.zipWith_cons_cons, List.zipWith_nil_right, List.sum_cons,
      List.sum_nil]
    norm_num
  have hlen : costs.length = bandwidths.length := rfl
  have hm : 2 ≤ costs.length := by decide
  obtain ⟨hlatency, loss, hloss, hlossSolved, -⟩ :=
    cappedPrograms_solved idealEngine_exact hlen hm 0.4
  obtain ⟨latency, hprogram, hsolved, hbest⟩ := hlatency (by simp only [costs]; norm_num)
  rw [hlimits] at hsolved hbest
  obtain ⟨solution, hsolution⟩ := hsolved.mpr (Or.inr (by norm_num))
  refine ⟨latency, loss, solution, hprogram, hsolution, ?_, hloss, ?_⟩
  · exact (hbest solution hsolution).1.trans hgreedy
  · rw [hlossSolved, hbottom]
    simp only [costs, List.map_cons, List.map_nil, List.getD_cons_zero, List.getD_cons_succ]
    norm_num

end Capped

end PathSelection.Lp
