import Mathlib
import PathSelection.Policy.KlUcb
import PathSelection.Proofs.Reals

namespace PathSelection.KlIndex

open Set

theorem divergence_real (p q : ℝ) :
    divergence p q = p * Real.log (p / q) + (1 - p) * Real.log ((1 - p) / (1 - q)) := by
  unfold divergence
  rw [Scalar.one_real]
  rfl

theorem slope_real (p q : ℝ) : slope p q = (q - p) / (q * (1 - q)) := by
  unfold slope
  rw [Scalar.one_real]

section Tangents

variable {p x y : ℝ}

/-- The divergence is convex: it lies above each of its tangents. -/
theorem tangent_le_divergence (hp : p ∈ Ioo 0 1) (hx : x ∈ Ioo 0 1) (hy : y ∈ Ioo 0 1) :
    divergence p x + slope p x * (y - x) ≤ divergence p y := by
  obtain ⟨hp0, hp1⟩ := hp
  obtain ⟨hx0, hx1⟩ := hx
  obtain ⟨hy0, hy1⟩ := hy
  -- Both logarithms are convex in the second trial, with their tangents by `1 - 1 / t ≤ log t`.
  have hsuccess : Real.log (p / x) + (1 - y / x) ≤ Real.log (p / y) := by
    have hlog := Real.one_sub_inv_le_log_of_pos (div_pos hx0 hy0)
    rw [inv_div, Real.log_div hx0.ne' hy0.ne'] at hlog
    rw [Real.log_div hp0.ne' hx0.ne', Real.log_div hp0.ne' hy0.ne']
    linarith
  have hfailure : Real.log ((1 - p) / (1 - x)) + (1 - (1 - y) / (1 - x)) ≤
      Real.log ((1 - p) / (1 - y)) := by
    have hlog := Real.one_sub_inv_le_log_of_pos (div_pos (sub_pos.mpr hx1) (sub_pos.mpr hy1))
    rw [inv_div, Real.log_div (sub_pos.mpr hx1).ne' (sub_pos.mpr hy1).ne'] at hlog
    rw [Real.log_div (sub_pos.mpr hp1).ne' (sub_pos.mpr hx1).ne',
      Real.log_div (sub_pos.mpr hp1).ne' (sub_pos.mpr hy1).ne']
    linarith
  have hslope : slope p x * (y - x) = p * (1 - y / x) + (1 - p) * (1 - (1 - y) / (1 - x)) := by
    have hx1' : 1 - x ≠ 0 := (sub_pos.mpr hx1).ne'
    rw [slope_real]
    field_simp
    ring
  have hp1' : 0 ≤ 1 - p := (sub_pos.mpr hp1).le
  rw [divergence_real, divergence_real, hslope]
  calc _ = p * (Real.log (p / x) + (1 - y / x)) +
        (1 - p) * (Real.log ((1 - p) / (1 - x)) + (1 - (1 - y) / (1 - x))) := by ring
    _ ≤ _ := add_le_add (mul_le_mul_of_nonneg_left hsuccess hp0.le)
        (mul_le_mul_of_nonneg_left hfailure hp1')

theorem divergence_self (hp : p ∈ Ioo 0 1) : divergence p p = 0 := by
  rw [divergence_real, div_self hp.1.ne', div_self (sub_pos.mpr hp.2).ne', Real.log_one]
  ring

theorem slope_self (p : ℝ) : slope p p = 0 := by
  rw [slope_real, sub_self, zero_div]

theorem slope_pos (hp : 0 < p) (hx : x ∈ Ioo p 1) : 0 < slope p x := by
  rw [slope_real]
  exact div_pos (sub_pos.mpr hx.1) (mul_pos (hp.trans hx.1) (sub_pos.mpr hx.2))

theorem divergence_nonneg (hp : p ∈ Ioo 0 1) (hx : x ∈ Ioo 0 1) : 0 ≤ divergence p x := by
  have h := tangent_le_divergence hp hp hx
  rw [divergence_self hp, slope_self, zero_mul, add_zero] at h
  exact h

theorem divergence_le_slope_mul (hp : p ∈ Ioo 0 1) (hx : x ∈ Ioo 0 1) :
    divergence p x ≤ slope p x * (x - p) := by
  have h := tangent_le_divergence hp hx hp
  rw [divergence_self hp] at h
  linarith

theorem slope_le_slope (hp : p ∈ Ioo 0 1) (hx : x ∈ Ioo 0 1) (hy : y ∈ Ioo 0 1) (hxy : x ≤ y) :
    slope p x ≤ slope p y := by
  rcases hxy.eq_or_lt with rfl | hlt
  · exact le_rfl
  · have hx' := tangent_le_divergence hp hx hy
    have hy' := tangent_le_divergence hp hy hx
    have hsum : (slope p x - slope p y) * (y - x) ≤ 0 := by linarith
    exact sub_nonpos.mp (nonpos_of_mul_nonpos_left hsum (sub_pos.mpr hlt))

theorem divergence_le_divergence (hp : p ∈ Ioo 0 1) (hx : x ∈ Ioo p 1) (hy : y ∈ Ioo p 1)
    (hxy : x ≤ y) : divergence p x ≤ divergence p y := by
  have htangent := tangent_le_divergence hp ⟨hp.1.trans hx.1, hx.2⟩ ⟨hp.1.trans hy.1, hy.2⟩
  have hslope := mul_nonneg (slope_pos hp.1 hx).le (sub_nonneg.mpr hxy)
  linarith

end Tangents

section Residuals

variable {p x y g : ℝ}

/-- Where a Newton step leads from `x` when it is off by the residual `g`. -/
noncomputable def moved (p g x : ℝ) : ℝ := x - g / slope p x

theorem slope_mul_moved_sub (h : slope p x ≠ 0) : slope p x * (moved p g x - x) = -g := by
  unfold moved
  field_simp
  ring

theorem hasDerivAt_divergence (hp : p ∈ Ioo 0 1) (hx : x ∈ Ioo 0 1) :
    HasDerivAt (divergence p) (slope p x) x := by
  have hx1 : 1 - x ≠ 0 := (sub_pos.mpr hx.2).ne'
  have hp1 : 1 - p ≠ 0 := (sub_pos.mpr hp.2).ne'
  have hx0 := hx.1.ne'
  have hp0 := hp.1.ne'
  have hsuccess : HasDerivAt (fun q => Real.log (p / q)) (-1 / x) x := by
    have hquot : HasDerivAt (fun q => p / q) ((0 * x - p * 1) / x ^ 2) x :=
      (hasDerivAt_const x p).div (hasDerivAt_id' x) hx0
    refine (hquot.log (div_ne_zero hp0 hx0)).congr_deriv ?_
    field_simp
    ring
  have hfailure : HasDerivAt (fun q => Real.log ((1 - p) / (1 - q))) (1 / (1 - x)) x := by
    have hquot : HasDerivAt (fun q => (1 - p) / (1 - q))
        ((0 * (1 - x) - (1 - p) * -1) / (1 - x) ^ 2) x :=
      (hasDerivAt_const x (1 - p)).div ((hasDerivAt_id' x).const_sub 1) hx1
    refine (hquot.log (div_ne_zero hp1 hx1)).congr_deriv ?_
    field_simp
    ring
  have hsum := (hsuccess.const_mul p).add (hfailure.const_mul (1 - p))
  have hfun : divergence p = fun q =>
      p * Real.log (p / q) + (1 - p) * Real.log ((1 - p) / (1 - q)) := funext (divergence_real p)
  rw [hfun]
  refine hsum.congr_deriv ?_
  rw [slope_real]
  field_simp
  ring

theorem moved_real (p g x : ℝ) : moved p g x = x - g * (x * (1 - x) / (x - p)) := by
  unfold moved
  rw [slope_real, div_div_eq_mul_div, mul_div_assoc]

theorem hasDerivAt_moved (hx : p < x) :
    HasDerivAt (moved p g) (1 + g * (p * (1 - p) / (x - p) ^ 2 + 1)) x := by
  have hne : x - p ≠ 0 := (sub_pos.mpr hx).ne'
  have hreach : HasDerivAt (fun u : ℝ => u * (1 - u) / (u - p))
      (-(p * (1 - p) / (x - p) ^ 2 + 1)) x := by
    have hprod : HasDerivAt (fun u : ℝ => u * (1 - u)) (1 * (1 - x) + x * -1) x :=
      (hasDerivAt_id' x).mul ((hasDerivAt_id' x).const_sub 1)
    have hquot : HasDerivAt (fun u : ℝ => u * (1 - u) / (u - p))
        (((1 * (1 - x) + x * -1) * (x - p) - x * (1 - x) * 1) / (x - p) ^ 2) x :=
      hprod.div ((hasDerivAt_id' x).sub_const p) hne
    refine hquot.congr_deriv ?_
    field_simp
    ring
  have hfun : moved p g = fun u => u - g * (u * (1 - u) / (u - p)) := funext (moved_real p g)
  rw [hfun]
  refine ((hasDerivAt_id' x).sub (hreach.const_mul g)).congr_deriv ?_
  ring

theorem moved_le (hp : 0 < p) (hx : x ∈ Ioo p 1) (hg : 0 ≤ g) : moved p g x ≤ x := by
  unfold moved
  linarith [div_nonneg hg (slope_pos hp hx).le]

/-- The reciprocal of the slope is convex, so that a step which is moved to the right moves its end
by a factor that the slopes at both ends make up for. -/
theorem slope_moved_mul_le (hp : p ∈ Ioo 0 1) (hx : x ∈ Ioo p 1) (hg : 0 ≤ g)
    (hmoved : p < moved p g x) :
    slope p (moved p g x) * (1 + g * (p * (1 - p) / (x - p) ^ 2 + 1)) ≤ slope p x := by
  set z := moved p g x with hz
  have hzx : z ≤ x := moved_le hp.1 hx hg
  have hz1 : 0 < 1 - z := sub_pos.mpr (hzx.trans_lt hx.2)
  have hz0 : 0 < z := hp.1.trans hmoved
  have hx0 : 0 < x := hp.1.trans hx.1
  have hx1 : 0 < 1 - x := sub_pos.mpr hx.2
  have hzp : 0 < z - p := sub_pos.mpr hmoved
  have hxp : 0 < x - p := sub_pos.mpr hx.1
  -- The step ends where the tangent of the reciprocal says, and the reciprocal lies above it.
  have hstep : g * (x * (1 - x)) = (x - z) * (x - p) := by
    have h := moved_real p g x
    rw [← hz] at h
    field_simp at h
    linarith
  have hconvex : x * (1 - x) / (x - p) * (1 + g * (p * (1 - p) / (x - p) ^ 2 + 1)) ≤
      z * (1 - z) / (z - p) := by
    have hgap : z * (1 - z) / (z - p) -
        x * (1 - x) / (x - p) * (1 + g * (p * (1 - p) / (x - p) ^ 2 + 1)) =
        p * (1 - p) * (x - z) ^ 2 / ((z - p) * (x - p) ^ 2) := by
      have hg' : g = (x - z) * (x - p) / (x * (1 - x)) := by
        rw [eq_div_iff (mul_pos hx0 hx1).ne']
        exact hstep
      rw [hg']
      field_simp
      ring
    have hnonneg : 0 ≤ p * (1 - p) * (x - z) ^ 2 / ((z - p) * (x - p) ^ 2) := by
      have hp1 := sub_pos.mpr hp.2
      have := hp.1
      positivity
    linarith
  rw [slope_real, slope_real, div_mul_eq_mul_div, div_le_div_iff₀ (mul_pos hz0 hz1)
    (mul_pos hx0 hx1)]
  rw [div_mul_eq_mul_div, div_le_div_iff₀ hxp hzp] at hconvex
  linarith

theorem moved_le_moved (hp : p ∈ Ioo 0 1) (hx : x ∈ Ioo p 1) (hy : y ∈ Ioo p 1) (hxy : x ≤ y)
    (hg : 0 ≤ g) : moved p g x ≤ moved p g y := by
  have hslopes := slope_le_slope hp ⟨hp.1.trans hx.1, hx.2⟩ ⟨hp.1.trans hy.1, hy.2⟩ hxy
  have hquot := div_le_div_of_nonneg_left hg (slope_pos hp.1 hx) hslopes
  unfold moved
  linarith

/-- A Newton step by one and the same residual removes more of the divergence further to the
right. -/
theorem divergence_moved_sub_le (hp : p ∈ Ioo 0 1) (hx : p < x) (hy : y < 1) (hxy : x ≤ y)
    (hg : 0 ≤ g) (hmoved : p < moved p g x) :
    divergence p (moved p g y) - divergence p y ≤ divergence p (moved p g x) - divergence p x := by
  have hbetween : ∀ u ∈ Icc x y, u ∈ Ioo p 1 := fun u hu => ⟨hx.trans_le hu.1, hu.2.trans_lt hy⟩
  have hreach : ∀ u ∈ Icc x y, moved p g u ∈ Ioo p 1 := by
    intro u hu
    have hmono := moved_le_moved hp (hbetween x ⟨le_rfl, hxy⟩) (hbetween u hu) hu.1 hg
    have hle := moved_le hp.1 (hbetween u hu) hg
    exact ⟨hmoved.trans_le hmono, hle.trans_lt (hbetween u hu).2⟩
  have hderiv : ∀ u ∈ Icc x y,
      HasDerivAt (fun u => divergence p (moved p g u) - divergence p u)
        (slope p (moved p g u) * (1 + g * (p * (1 - p) / (u - p) ^ 2 + 1)) - slope p u) u := by
    intro u hu
    obtain ⟨hlow, hhigh⟩ := hreach u hu
    obtain ⟨hup, hu1⟩ := hbetween u hu
    exact ((hasDerivAt_divergence hp ⟨hp.1.trans hlow, hhigh⟩).comp u (hasDerivAt_moved hup)).sub
      (hasDerivAt_divergence hp ⟨hp.1.trans hup, hu1⟩)
  -- Its derivative is the slope at the end of the step, times how fast that end moves, minus the
  -- slope at its start.
  have hanti : AntitoneOn (fun u => divergence p (moved p g u) - divergence p u) (Icc x y) := by
    apply antitoneOn_of_hasDerivWithinAt_nonpos (convex_Icc x y)
    · exact fun u hu => (hderiv u hu).continuousAt.continuousWithinAt
    · exact fun u hu => (hderiv u (interior_subset hu)).hasDerivWithinAt
    · intro u hu
      have hu' := interior_subset hu
      apply sub_nonpos.mpr
      exact slope_moved_mul_le hp (hbetween u hu') hg (hreach u hu').1
  exact hanti ⟨le_rfl, hxy⟩ ⟨hxy, le_rfl⟩ hxy

/-- The residual that is left after a Newton step. It is no larger from a point further to the right
with a smaller residual. -/
theorem residual_moved_le {h : ℝ} (hp : p ∈ Ioo 0 1) (hx : p < x) (hy : y < 1) (hxy : x ≤ y)
    (hh : 0 ≤ h) (hhg : h ≤ g) (hmoved : p < moved p g x) :
    divergence p (moved p h y) - divergence p y + h ≤
      divergence p (moved p g x) - divergence p x + g := by
  have hx' : x ∈ Ioo p 1 := ⟨hx, hxy.trans_lt hy⟩
  have hy' : y ∈ Ioo p 1 := ⟨hx.trans_le hxy, hy⟩
  have hpos := slope_pos hp.1 hy'
  have hlong : p < moved p g y := hmoved.trans_le (moved_le_moved hp hx' hy' hxy (hh.trans hhg))
  have hshort : moved p g y ≤ moved p h y := by
    have hquot := div_le_div_of_nonneg_right hhg hpos.le
    unfold moved
    linarith
  have hend : moved p h y ≤ y := moved_le hp.1 hy' hh
  -- From the end of the shorter step to that of the longer one the slope is at most that at `y`.
  have htangent := tangent_le_divergence hp
    ⟨hp.1.trans (hlong.trans_le hshort), hend.trans_lt hy⟩
    ⟨hp.1.trans hlong, (hshort.trans hend).trans_lt hy⟩
  have hslope := slope_le_slope hp ⟨hp.1.trans (hlong.trans_le hshort), hend.trans_lt hy⟩
    ⟨hp.1.trans hy'.1, hy⟩ hend
  have hgap : moved p h y - moved p g y = (g - h) / slope p y := by
    unfold moved
    ring
  have hfall : slope p (moved p h y) * (moved p h y - moved p g y) ≤ g - h := by
    rw [hgap, mul_div_assoc', div_le_iff₀ hpos, mul_comm]
    exact mul_le_mul_of_nonneg_left hslope (sub_nonneg.mpr hhg)
  have hequal := divergence_moved_sub_le hp hx hy hxy (hh.trans hhg) hmoved
  linarith

end Residuals

end PathSelection.KlIndex
