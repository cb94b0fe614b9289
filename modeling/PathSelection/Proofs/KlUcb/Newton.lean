import PathSelection.Proofs.KlUcb.Divergence
/-!
The Newton steps towards the index of a path, with exact numbers. A step leads to the right of the
point where the divergence is the budget, and from there all further steps lead back towards it.
-/
namespace PathSelection.KlIndex

open Set

variable {p b c q r : ℝ}

theorem margin_real : (margin : ℝ) = 1 / 10 ^ 8 := by
  unfold margin
  norm_num

theorem margin_pos : (0 : ℝ) < margin := by
  rw [margin_real]
  norm_num

/-- The points that the steps from `p` can reach. -/
def track (p : ℝ) : Set ℝ := Icc (p + margin) (1 - margin)

/-- The point to which a step leads that is not the last one. -/
noncomputable def next (budget p q : ℝ) : ℝ :=
  min (max (moved p (divergence p q - budget) q) (p + margin)) (1 - margin)

theorem newton_succ (b p : ℝ) (steps : ℕ) (q : ℝ) :
    newton b p (steps + 1) q =
      if |divergence p q - b| < 1 / 10 ^ 6 then q else newton b p steps (next b p q) := by
  have hstop : (b - divergence p q) * (b - divergence p q) < residualTolerance ↔
      |divergence p q - b| < 1 / 10 ^ 6 := by
    have htolerance : (residualTolerance : ℝ) = (1 / 10 ^ 6) ^ 2 := by
      unfold residualTolerance
      norm_num
    rw [htolerance, ← sq, sq_lt_sq, abs_sub_comm, abs_of_pos (by norm_num : (0 : ℝ) < 1 / 10 ^ 6)]
  have hmoved : q - (b - divergence p q) / -slope p q = moved p (divergence p q - b) q := by
    unfold moved
    rw [div_neg, ← neg_div, neg_sub]
  rw [newton]
  simp only [hstop, hmoved, Scalar.max_real, Scalar.min_real, Scalar.one_real]
  rfl

theorem mem_Ioo_of_track (hq : q ∈ track p) : q ∈ Ioo p 1 := by
  obtain ⟨hlow, hhigh⟩ := hq
  rw [margin_real] at hlow hhigh
  constructor <;> linarith

section Steps

variable (hp : margin ≤ p) (hroom : p + margin ≤ 1 - margin)

include hp hroom

theorem mem_Ioo_of_margin : p ∈ Ioo 0 1 := by
  rw [margin_real] at hp hroom
  constructor <;> linarith

theorem mem_unit_of_track (hq : q ∈ track p) : q ∈ Ioo 0 1 := by
  have hp0 := (mem_Ioo_of_margin hp hroom).1
  have hq' := mem_Ioo_of_track hq
  exact ⟨hp0.trans hq'.1, hq'.2⟩

omit hp in
theorem next_mem (b q : ℝ) : next b p q ∈ track p :=
  ⟨le_min (le_max_right _ _) hroom, min_le_right _ _⟩

omit hp in
theorem newton_mem (b : ℝ) (steps : ℕ) (hq : q ∈ track p) : newton b p steps q ∈ track p := by
  induction steps generalizing q with
  | zero => exact hq
  | succ steps ih =>
    rw [newton_succ]
    split
    · exact hq
    · exact ih (next_mem hroom b q)

/-- A step that is not cut off at the right end leads to the right of the budget: its end lies
right of where the tangent attains the budget. -/
theorem le_divergence_next (hq : q ∈ track p)
    (hinside : moved p (divergence p q - b) q ≤ 1 - margin) : b ≤ divergence p (next b p q) := by
  have hunit := mem_Ioo_of_margin hp hroom
  have hslope := slope_pos hunit.1 (mem_Ioo_of_track hq)
  have hfar : moved p (divergence p q - b) q ≤ next b p q := le_min (le_max_left _ _) hinside
  have htangent := tangent_le_divergence hunit (mem_unit_of_track hp hroom hq)
    (mem_unit_of_track hp hroom (next_mem hroom b q))
  have hreached : slope p q * (moved p (divergence p q - b) q - q) = b - divergence p q := by
    rw [slope_mul_moved_sub hslope.ne', neg_sub]
  have hmul := mul_le_mul_of_nonneg_left (sub_le_sub_right hfar q) hslope.le
  linarith

theorem next_eq_moved (hq : q ∈ track p) (hright : b ≤ divergence p q)
    (hstart : divergence p (p + margin) < b) :
    next b p q = moved p (divergence p q - b) q ∧
      p + margin ≤ moved p (divergence p q - b) q := by
  have hle := moved_le (mem_Ioo_of_margin hp hroom).1 (mem_Ioo_of_track hq)
    (sub_nonneg.mpr hright)
  have hinside := hle.trans hq.2
  have hbudget := le_divergence_next hp hroom hq hinside
  have hreach : p + margin ≤ moved p (divergence p q - b) q := by
    by_contra hlow
    have hnext : next b p q = p + margin := by
      unfold next
      rw [max_eq_right (not_le.mp hlow).le, min_eq_left hroom]
    rw [hnext] at hbudget
    exact absurd hbudget (not_le.mpr hstart)
  refine ⟨?_, hreach⟩
  unfold next
  rw [max_eq_left hreach, min_eq_left hinside]

/-- From the right of the budget a step leads back, but not beyond it. -/
theorem next_le (hq : q ∈ track p) (hright : b ≤ divergence p q) :
    next b p q ≤ q ∧ b ≤ divergence p (next b p q) := by
  have hle := moved_le (mem_Ioo_of_margin hp hroom).1 (mem_Ioo_of_track hq)
    (sub_nonneg.mpr hright)
  exact ⟨(min_le_left _ _).trans (max_le hle hq.1), le_divergence_next hp hroom hq (hle.trans hq.2)⟩

theorem newton_le (steps : ℕ) (hq : q ∈ track p) (hright : b ≤ divergence p q) :
    newton b p steps q ≤ q ∧ b ≤ divergence p (newton b p steps q) := by
  induction steps generalizing q with
  | zero => exact ⟨le_rfl, hright⟩
  | succ steps ih =>
    rw [newton_succ]
    split
    · exact ⟨le_rfl, hright⟩
    · obtain ⟨hle, hbudget⟩ := next_le hp hroom hq hright
      obtain ⟨hrest, hend⟩ := ih (next_mem hroom b q) hbudget
      exact ⟨hrest.trans hle, hend⟩

/-- A step is monotone in the budget and, right of it, also in the point that it starts from. -/
theorem next_le_next (hq : q ∈ track p) (hr : r ∈ track p) (hqr : q ≤ r) (hbc : b ≤ c)
    (hright : b ≤ divergence p q ∨ q = r) : next b p q ≤ next c p r := by
  have hunit := mem_Ioo_of_margin hp hroom
  have hslopeq := slope_pos hunit.1 (mem_Ioo_of_track hq)
  have hsloper := slope_pos hunit.1 (mem_Ioo_of_track hr)
  have hmoved : moved p (divergence p q - b) q ≤ moved p (divergence p r - c) r := by
    have hslopes := slope_le_slope hunit (mem_unit_of_track hp hroom hq)
      (mem_unit_of_track hp hroom hr) hqr
    have htangent := tangent_le_divergence hunit (mem_unit_of_track hp hroom hr)
      (mem_unit_of_track hp hroom hq)
    have hq' : slope p q * (moved p (divergence p q - b) q - q) = b - divergence p q := by
      rw [slope_mul_moved_sub hslopeq.ne', neg_sub]
    have hr' : slope p r * (moved p (divergence p r - c) r - r) = c - divergence p r := by
      rw [slope_mul_moved_sub hsloper.ne', neg_sub]
    -- The step from `q` leads back, so that the larger slope at `r` only makes it longer.
    have hback : slope p r * (moved p (divergence p q - b) q - q) ≤ b - divergence p q := by
      rcases hright with hright | rfl
      · have hle := moved_le hunit.1 (mem_Ioo_of_track hq) (sub_nonneg.mpr hright)
        rw [← hq']
        exact mul_le_mul_of_nonpos_right hslopes (sub_nonpos.mpr hle)
      · exact hq'.le
    have hgap : 0 ≤ slope p r *
        (moved p (divergence p r - c) r - moved p (divergence p q - b) q) := by linarith
    exact sub_nonneg.mp (nonneg_of_mul_nonneg_right hgap hsloper)
  exact min_le_min_right _ (max_le_max_right _ hmoved)

/-- A budget beyond the right end is never met, and all steps lead to that end. -/
theorem newton_eq_last (steps : ℕ) (hq : q ∈ track p) (hlast : divergence p (1 - margin) < b)
    (hstop : 1 / 10 ^ 6 ≤ |divergence p q - b|) : newton b p (steps + 1) q = 1 - margin := by
  have hnext : ∀ q ∈ track p, next b p q = 1 - margin := by
    intro q hq
    by_contra hne
    have hbudget : b ≤ divergence p (next b p q) := by
      apply le_divergence_next hp hroom hq
      by_contra hfar
      apply hne
      exact min_eq_right ((not_le.mp hfar).le.trans (le_max_left _ _))
    have hmono := divergence_le_divergence (mem_Ioo_of_margin hp hroom)
      (mem_Ioo_of_track (next_mem hroom b q))
      (mem_Ioo_of_track ⟨hroom, le_rfl⟩) (next_mem hroom b q).2
    exact absurd (hbudget.trans hmono) (not_le.mpr hlast)
  have hstay : ∀ steps, newton b p steps (1 - margin) = 1 - margin := by
    intro steps
    induction steps with
    | zero => rfl
    | succ steps ih =>
      rw [newton_succ, hnext _ ⟨hroom, le_rfl⟩, ih, ite_self]
  rw [newton_succ, if_neg (not_lt.mpr hstop), hnext q hq, hstay]

/-- Of two runs right of their budgets, the one for the smaller budget ends first, unless it stops
because its residual is within the tolerance. -/
theorem newton_le_newton_or (steps : ℕ) (hq : q ∈ track p) (hr : r ∈ track p) (hqr : q ≤ r)
    (hbc : b ≤ c) (hb : b ≤ divergence p q) (hc : c ≤ divergence p r) :
    newton b p steps q ≤ newton c p steps r ∨
      divergence p (newton b p steps q) < b + 1 / 10 ^ 6 := by
  induction steps generalizing q r with
  | zero => exact Or.inl hqr
  | succ steps ih =>
    by_cases hstop : |divergence p q - b| < 1 / 10 ^ 6
    · right
      rw [newton_succ, if_pos hstop]
      linarith [(abs_lt.mp hstop).2]
    · by_cases hstop' : |divergence p r - c| < 1 / 10 ^ 6
      · left
        have hle := (newton_le hp hroom (steps + 1) hq hb).1
        rw [newton_succ c, if_pos hstop']
        exact hle.trans hqr
      · rw [newton_succ b, newton_succ c, if_neg hstop, if_neg hstop']
        exact ih (next_mem hroom b q) (next_mem hroom c r)
          (next_le_next hp hroom hq hr hqr hbc (Or.inl hb)) (next_le hp hroom hq hb).2
          (next_le hp hroom hr hc).2

/-- Two runs right of their budgets stay in order if the one for the larger budget starts with the
residual that is no larger: then it stops no later. -/
theorem newton_le_newton (steps : ℕ) (hq : q ∈ track p) (hr : r ∈ track p) (hqr : q ≤ r)
    (hstart : divergence p (p + margin) < b) (hbc : b ≤ c) (hc : c ≤ divergence p r)
    (hresidual : divergence p r - c ≤ divergence p q - b) :
    newton b p steps q ≤ newton c p steps r := by
  have hunit := mem_Ioo_of_margin hp hroom
  induction steps generalizing q r with
  | zero => exact hqr
  | succ steps ih =>
    have hb : b ≤ divergence p q := by linarith
    by_cases hstop : |divergence p r - c| < 1 / 10 ^ 6
    · rw [newton_succ c, if_pos hstop]
      exact (newton_le hp hroom (steps + 1) hq hb).1.trans hqr
    · have hstop' : ¬|divergence p q - b| < 1 / 10 ^ 6 := by
        rw [abs_of_nonneg (sub_nonneg.mpr hc)] at hstop
        rw [abs_of_nonneg (sub_nonneg.mpr hb)]
        exact fun hlt => hstop (hresidual.trans_lt hlt)
      obtain ⟨hnextq, hreach⟩ := next_eq_moved hp hroom hq hb hstart
      obtain ⟨hnextr, -⟩ := next_eq_moved hp hroom hr hc (hstart.trans_le hbc)
      have hmargin : p < p + margin := lt_add_of_pos_right p margin_pos
      have hleft := residual_moved_le hunit (mem_Ioo_of_track hq).1
        (mem_Ioo_of_track hr).2 hqr (sub_nonneg.mpr hc) hresidual
        (hmargin.trans_le hreach)
      rw [newton_succ b, newton_succ c, if_neg hstop, if_neg hstop']
      -- The residuals stay in order, as neither step is cut off.
      apply ih (next_mem hroom b q) (next_mem hroom c r)
        (next_le_next hp hroom hq hr hqr hbc (Or.inl hb)) (next_le hp hroom hr hc).2
      rw [hnextq, hnextr]
      linarith

end Steps

end PathSelection.KlIndex
