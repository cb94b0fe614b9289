import Mathlib.Data.List.GetD
import PathSelection.Proofs.Exp3.Cap

namespace PathSelection.Exp3

/-- What a weight counts under a cap. -/
noncomputable def counted (cap : Option ℝ) (w : ℝ) : ℝ :=
  match cap with
  | none => w
  | some cap => min w cap

theorem cappedWeights_real (cap : Option ℝ) (weights : List ℝ) :
    cappedWeights cap weights = weights.map (counted cap) := by
  cases cap with
  | none => exact (List.map_id weights).symm
  | some cap => exact List.map_congr_left fun w _ => Scalar.min_real w cap

theorem counted_mono (cap : Option ℝ) : Monotone (counted cap) := by
  intro w v hle
  cases cap with
  | none => exact hle
  | some cap => exact min_le_min_right cap hle

/-- The probability of a path whose weight counts `w`, as long as it is not cut at one. -/
noncomputable def mixture (gamma : ℝ) (m paths : ℕ) (total w : ℝ) : ℝ :=
  m * ((1 - gamma) * w / total + gamma / paths)

theorem mixed_real (gamma : ℝ) (m : ℕ) (weights : List ℝ) :
    mixed gamma m weights =
      weights.map fun w => min (mixture gamma m weights.length weights.sum w) 1 := by
  apply List.map_congr_left
  intro w _
  rw [Scalar.min_real, Scalar.sum_real, Scalar.one_real]
  rfl

section Capping

variable {limit : ℝ} {m : ℕ} {weights : List ℝ} {cap : Option ℝ}

theorem Capping.counted_pos (h : Capping limit m weights cap) (hpos : ∀ w ∈ weights, 0 < w) :
    ∀ w ∈ weights, 0 < counted cap w := by
  intro w hw
  cases h with
  | free h => exact hpos w hw
  | capped hover h => exact lt_min (hpos w hw) h.pos

theorem Capping.total_pos (h : Capping limit m weights cap) (hpos : ∀ w ∈ weights, 0 < w)
    (hlen : 0 < weights.length) : 0 < (weights.map (counted cap)).sum := by
  apply List.sum_pos
  · intro x hx
    obtain ⟨w, hw, rfl⟩ := List.mem_map.mp hx
    exact h.counted_pos hpos w hw
  · exact mt List.map_eq_nil_iff.mp (List.ne_nil_of_length_pos hlen)

/-- Under the cap no weight exceeds its limit, and those that reach it are the capped ones. -/
theorem Capping.counted_le (h : Capping limit m weights cap) {w : ℝ} (hw : w ∈ weights) :
    counted cap w ≤ limit * (weights.map (counted cap)).sum ∧
      (counted cap w = limit * (weights.map (counted cap)).sum ↔ ∃ c, cap = some c ∧ c ≤ w) := by
  cases h with
  | free h =>
    have hlt : counted none w < limit * (weights.map (counted none)).sum := by
      rw [show weights.map (counted none) = weights from List.map_id weights]
      exact h w hw
    refine ⟨hlt.le, iff_of_false hlt.ne ?_⟩
    rintro ⟨c, hc, -⟩
    exact Option.some_ne_none c hc.symm
  | @capped c hover h =>
    -- The limit is the cap itself, which a weight counts as exactly when it reaches it.
    have hfixed : limit * (weights.map (counted (some c))).sum = c := h.fixed.symm
    rw [hfixed]
    refine ⟨min_le_right w c, min_eq_right_iff.trans ?_⟩
    exact ⟨fun hle => ⟨c, rfl, hle⟩, fun ⟨_, hc, hle⟩ => Option.some.inj hc ▸ hle⟩

end Capping

section Mixture

variable {gamma total : ℝ} {m paths : ℕ}

theorem mixture_mono (h1 : gamma < 1) (htotal : 0 < total) :
    Monotone (mixture gamma m paths total) := by
  intro w v hle
  have hgap : 0 ≤ 1 - gamma := (sub_pos.mpr h1).le
  have hdiv : (1 - gamma) * w / total ≤ (1 - gamma) * v / total :=
    div_le_div_of_nonneg_right (mul_le_mul_of_nonneg_left hle hgap) htotal.le
  exact mul_le_mul_of_nonneg_left (add_le_add_left hdiv _) (Nat.cast_nonneg m)

theorem le_mixture (h1 : gamma < 1) (htotal : 0 < total) {w : ℝ} (hw : 0 ≤ w) :
    m * gamma / paths ≤ mixture gamma m paths total w := by
  have hshare : 0 ≤ (1 - gamma) * w / total :=
    div_nonneg (mul_nonneg (sub_pos.mpr h1).le hw) htotal.le
  rw [mul_div_assoc]
  exact mul_le_mul_of_nonneg_left (le_add_of_nonneg_left hshare) (Nat.cast_nonneg m)

/-- How far a probability stays below one is how far the weight stays below its limit. -/
theorem mixture_eq (h1 : gamma < 1) (hm : 1 ≤ m) (htotal : 0 < total) (w : ℝ) :
    mixture gamma m paths total w =
      1 + m * (1 - gamma) / total * (w - shareLimit gamma paths m * total) := by
  have hone := probability_at_shareLimit paths h1 hm
  unfold mixture
  calc
    (m : ℝ) * ((1 - gamma) * w / total + gamma / paths)
        = m * ((1 - gamma) * shareLimit gamma paths m + gamma / paths) +
          m * (1 - gamma) / total * (w - shareLimit gamma paths m * total) := by
            field_simp
            ring
    _ = 1 + m * (1 - gamma) / total * (w - shareLimit gamma paths m * total) := by rw [hone]

theorem mixture_le_one (h1 : gamma < 1) (hm : 1 ≤ m) (htotal : 0 < total) {w : ℝ}
    (hw : w ≤ shareLimit gamma paths m * total) : mixture gamma m paths total w ≤ 1 := by
  have hslope : 0 ≤ m * (1 - gamma) / total :=
    div_nonneg (mul_nonneg (Nat.cast_nonneg m) (sub_pos.mpr h1).le) htotal.le
  rw [mixture_eq h1 hm htotal]
  have hbelow := mul_nonpos_of_nonneg_of_nonpos hslope (sub_nonpos.mpr hw)
  linarith

theorem mixture_eq_one (h1 : gamma < 1) (hm : 1 ≤ m) (htotal : 0 < total) {w : ℝ} :
    mixture gamma m paths total w = 1 ↔ w = shareLimit gamma paths m * total := by
  have hm' : (m : ℝ) ≠ 0 := by exact_mod_cast Nat.one_le_iff_ne_zero.mp hm
  have hslope : m * (1 - gamma) / total ≠ 0 :=
    div_ne_zero (mul_ne_zero hm' (sub_pos.mpr h1).ne') htotal.ne'
  rw [mixture_eq h1 hm htotal, add_eq_left, mul_eq_zero, or_iff_right hslope, sub_eq_zero]

theorem sum_mixture {weights : List ℝ} (hlen : 0 < weights.length) (hsum : 0 < weights.sum) :
    (weights.map (mixture gamma m weights.length weights.sum)).sum = m := by
  have hlen' : (weights.length : ℝ) ≠ 0 := by exact_mod_cast hlen.ne'
  have hsum' := hsum.ne'
  -- A probability is a linear function of what the weight counts.
  have hlinear : mixture gamma m weights.length weights.sum = fun w =>
      m * (1 - gamma) / weights.sum * w + m * (gamma / weights.length) := by
    funext w
    unfold mixture
    ring
  rw [hlinear, List.sum_map_add, List.sum_map_mul_left, List.map_id', List.map_const',
    List.sum_replicate, nsmul_eq_mul]
  field_simp
  ring

end Mixture

/-- The probabilities of paths with the given weights when these count up to `cap`. -/
noncomputable def chances (gamma : ℝ) (m : ℕ) (cap : Option ℝ) (weights : List ℝ) : List ℝ :=
  weights.map fun w =>
    mixture gamma m weights.length (weights.map (counted cap)).sum (counted cap w)

section Chances

variable {gamma : ℝ} {m : ℕ} {weights : List ℝ} {cap : Option ℝ}

theorem Capping.mixed_eq (h : Capping (shareLimit gamma weights.length m) m weights cap)
    (h1 : gamma < 1) (hm : 1 ≤ m) (hlen : 0 < weights.length) (hpos : ∀ w ∈ weights, 0 < w) :
    mixed gamma m (cappedWeights cap weights) = chances gamma m cap weights := by
  rw [mixed_real, cappedWeights_real, List.map_map, List.length_map]
  apply List.map_congr_left
  intro w hw
  exact min_eq_left (mixture_le_one h1 hm (h.total_pos hpos hlen) (h.counted_le hw).1)

theorem length_chances : (chances gamma m cap weights).length = weights.length :=
  List.length_map _

theorem getD_chances {i : ℕ} (hi : i < weights.length) :
    (chances gamma m cap weights).getD i 0 =
      mixture gamma m weights.length (weights.map (counted cap)).sum
        (counted cap (weights.getD i 0)) := by
  have hi' : i < (chances gamma m cap weights).length := length_chances.symm ▸ hi
  rw [List.getD_eq_getElem _ 0 hi', List.getD_eq_getElem _ 0 hi]
  exact List.getElem_map _

theorem Capping.sum_chances (h : Capping (shareLimit gamma weights.length m) m weights cap)
    (hlen : 0 < weights.length) (hpos : ∀ w ∈ weights, 0 < w) :
    (chances gamma m cap weights).sum = m := by
  have hlen' : (weights.map (counted cap)).length = weights.length := List.length_map _
  have hsum := @sum_mixture gamma m _ (hlen'.symm ▸ hlen) (h.total_pos hpos hlen)
  rw [List.map_map, hlen'] at hsum
  exact hsum

theorem Capping.chances_mem (h : Capping (shareLimit gamma weights.length m) m weights cap)
    (h1 : gamma < 1) (hm : 1 ≤ m) (hlen : 0 < weights.length) (hpos : ∀ w ∈ weights, 0 < w) :
    ∀ x ∈ chances gamma m cap weights, m * gamma / weights.length ≤ x ∧ x ≤ 1 := by
  intro x hx
  obtain ⟨w, hw, rfl⟩ := List.mem_map.mp hx
  have htotal := h.total_pos hpos hlen
  exact ⟨le_mixture h1 htotal (h.counted_pos hpos w hw).le,
    mixture_le_one h1 hm htotal (h.counted_le hw).1⟩

theorem Capping.chance_eq_one (h : Capping (shareLimit gamma weights.length m) m weights cap)
    (h1 : gamma < 1) (hm : 1 ≤ m) (hpos : ∀ w ∈ weights, 0 < w) {i : ℕ}
    (hi : i < weights.length) :
    (chances gamma m cap weights).getD i 0 = 1 ↔ ∃ c, cap = some c ∧ c ≤ weights.getD i 0 := by
  have htotal := h.total_pos hpos (Nat.zero_lt_of_lt hi)
  have hw : weights.getD i 0 ∈ weights := by
    rw [List.getD_eq_getElem _ 0 hi]
    exact List.getElem_mem hi
  rw [getD_chances hi, mixture_eq_one h1 hm htotal]
  exact (h.counted_le hw).2

theorem Capping.eq_none_iff {limit : ℝ} (h : Capping limit m weights cap) :
    cap = none ↔ ∀ w ∈ weights, w < limit * weights.sum := by
  cases h with
  | free h => exact iff_of_true rfl h
  | capped hover h =>
    obtain ⟨w, hw, hle⟩ := hover
    exact iff_of_false (Option.some_ne_none _) fun hall => (hall w hw).not_ge hle

end Chances

section Prepare

variable {ρ : Type} {m : ℕ}

theorem prepare_eq (p : Exp3 ρ ℝ) (h0 : 0 < p.gamma) (h1 : p.gamma < 1) (hm : 1 ≤ m)
    (hlt : m < p.weights.length) (hpos : ∀ w ∈ p.weights, 0 < w) :
    ∃ cap, Capping (shareLimit p.gamma p.weights.length m) m p.weights cap ∧
      p.prepare m =
        .ok { p with cap := cap, probabilities := chances p.gamma m cap p.weights } := by
  obtain ⟨cap, hcap, h⟩ := capFor_capping h0 h1 hm hlt hpos
  refine ⟨cap, h, ?_⟩
  unfold prepare
  rw [hcap, ← h.mixed_eq h1 hm (Nat.zero_lt_of_lt hlt) hpos]

/-- The probabilities for fewer plays than paths always exist and sum to the number of plays. They
are at least the uniform share of the exploration and at most one, and heavier weights do not have
smaller ones. Without a cap all of them are below one. A cap lies below some weight and is its share
of the weights that are cut at it; the paths that reach it are certain, and they are fewer than the
plays. -/
theorem prepare_probabilities (p : Exp3 ρ ℝ) (h0 : 0 < p.gamma) (h1 : p.gamma < 1) (hm : 1 ≤ m)
    (hlt : m < p.weights.length) (hpos : ∀ w ∈ p.weights, 0 < w) :
    ∃ cap probabilities,
      p.prepare m = .ok { p with cap := cap, probabilities := probabilities } ∧
      probabilities.length = p.weights.length ∧
      probabilities.sum = m ∧
      (∀ x ∈ probabilities, m * p.gamma / p.weights.length ≤ x ∧ x ≤ 1) ∧
      (∀ i < p.weights.length, ∀ j < p.weights.length,
        p.weights.getD i 0 ≤ p.weights.getD j 0 →
          probabilities.getD i 0 ≤ probabilities.getD j 0) ∧
      (cap = none ↔ ∀ w ∈ p.weights,
        w < (1 / m - p.gamma / p.weights.length) / (1 - p.gamma) * p.weights.sum) ∧
      (cap = none → ∀ x ∈ probabilities, x < 1) ∧
      ∀ c, cap = some c →
        0 < c ∧ (∃ w ∈ p.weights, c ≤ w) ∧
        c = (1 / m - p.gamma / p.weights.length) / (1 - p.gamma) *
          (p.weights.map fun w => min w c).sum ∧
        (∀ i < p.weights.length, probabilities.getD i 0 = 1 ↔ c ≤ p.weights.getD i 0) ∧
        1 ≤ p.weights.countP (fun w => Decidable.decide (c ≤ w)) ∧
        p.weights.countP (fun w => Decidable.decide (c ≤ w)) ≤ m - 1 := by
  obtain ⟨cap, h, hprepare⟩ := prepare_eq p h0 h1 hm hlt hpos
  have hlen : 0 < p.weights.length := Nat.zero_lt_of_lt hlt
  have hmem := h.chances_mem h1 hm hlen hpos
  rw [← shareLimit_real]
  refine ⟨cap, _, hprepare, length_chances, h.sum_chances hlen hpos, hmem, ?_, h.eq_none_iff,
    ?_, ?_⟩
  · intro i hi j hj hle
    rw [getD_chances hi, getD_chances hj]
    exact mixture_mono h1 (h.total_pos hpos hlen) (counted_mono cap hle)
  · intro hnone x hx
    apply lt_of_le_of_ne (hmem x hx).2
    -- A certain path would be capped.
    intro hone
    obtain ⟨i, hi, rfl⟩ := List.mem_iff_getElem.mp hx
    rw [← List.getD_eq_getElem _ 0 hi] at hone
    obtain ⟨c, hc, -⟩ := (h.chance_eq_one h1 hm hpos (length_chances ▸ hi)).mp hone
    exact Option.some_ne_none c (hc.symm.trans hnone)
  · rintro c rfl
    cases h with
    | capped hover hcap =>
      refine ⟨hcap.pos, hcap.exists_le, hcap.fixed, fun i hi => ?_, hcap.one_le_countP,
        Nat.le_sub_one_of_lt hcap.countP_lt⟩
      rw [(Capping.capped hover hcap).chance_eq_one h1 hm hpos hi]
      exact ⟨fun ⟨_, hc, hle⟩ => Option.some.inj hc ▸ hle, fun hle => ⟨c, rfl, hle⟩⟩

/-- Two plays of four paths, of which one is far heavier than the others and gets capped. -/
theorem prepare_probabilities_heavy :
    ∃ c, ∃ probabilities : List ℝ,
      prepare 2 (⟨0.1, [1000, 1, 1, 1], [1, 1, 1, 1], none, ()⟩ : Exp3 Unit ℝ) =
        .ok ⟨0.1, [1000, 1, 1, 1], probabilities, some c, ()⟩ ∧
      probabilities.sum = 2 ∧ probabilities.getD 0 0 = 1 := by
  obtain ⟨cap, probabilities, hprepare, -, hsum, -, -, hnone, -, hcap⟩ := prepare_probabilities
    (⟨0.1, [1000, 1, 1, 1], [1, 1, 1, 1], none, ()⟩ : Exp3 Unit ℝ) (m := 2) (by norm_num)
    (by norm_num) (by decide) (by decide) (by norm_num)
  cases cap with
  | none =>
    have hunder := hnone.mp rfl 1000 List.mem_cons_self
    norm_num at hunder
  | some c =>
    obtain ⟨-, ⟨w, hw, hle⟩, -, hcertain, -⟩ := hcap c rfl
    have hw' : w ≤ 1000 := by
      simp only [List.mem_cons, List.not_mem_nil, or_false] at hw
      rcases hw with rfl | rfl | rfl | rfl <;> norm_num
    refine ⟨c, probabilities, hprepare, hsum, (hcertain 0 (by decide)).mpr ?_⟩
    exact hle.trans hw'

end Prepare

end PathSelection.Exp3
