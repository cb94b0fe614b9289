import PathSelection.Proofs.KlUcb.Newton

namespace PathSelection.KlIndex

open Set

variable {p b c : ℝ}

section Runs

/-- Without room between the margins, every step leads to the right end, which is then below the
start. -/
theorem newton_of_no_room (hroom : 1 - margin < p + margin) (b : ℝ) (steps : ℕ) {q : ℝ}
    (hq : q = p + margin ∨ q = 1 - margin) :
    newton b p steps q = p + margin ∨ newton b p steps q = 1 - margin := by
  induction steps generalizing q with
  | zero => exact hq
  | succ steps ih =>
    rw [newton_succ]
    split
    · exact hq
    · apply ih
      right
      exact min_eq_right (hroom.le.trans (le_max_right _ _))

variable (hp : margin ≤ p) (hroom : p + margin ≤ 1 - margin)

include hp hroom

/-- The runs start with almost no divergence. -/
theorem divergence_start_le : divergence p (p + margin) ≤ 2 * margin := by
  have hstart : p + margin ∈ track p := ⟨le_rfl, hroom⟩
  have hle := divergence_le_slope_mul (mem_Ioo_of_margin hp hroom)
    (mem_unit_of_track hp hroom hstart)
  have hunit := mem_unit_of_track hp hroom hstart
  have hwide : margin ≤ 2 * ((p + margin) * (1 - (p + margin))) := by
    rw [margin_real] at hp hroom ⊢
    nlinarith
  rw [slope_real, add_sub_cancel_left, div_mul_eq_mul_div,
    le_div_iff₀ (mul_pos hunit.1 (sub_pos.mpr hunit.2))] at hle
  have hmul := mul_le_mul_of_nonneg_left hwide margin_pos.le
  have hpos := mul_pos hunit.1 (sub_pos.mpr hunit.2)
  by_contra hlarge
  have hlt := mul_lt_mul_of_pos_right (not_le.mp hlarge) hpos
  linarith

theorem right_of_next {q : ℝ} (hq : q ∈ track p) (hlast : b ≤ divergence p (1 - margin)) :
    b ≤ divergence p (next b p q) := by
  by_cases hinside : moved p (divergence p q - b) q ≤ 1 - margin
  · exact le_divergence_next hp hroom hq hinside
  · have hnext : next b p q = 1 - margin :=
      min_eq_right ((not_le.mp hinside).le.trans (le_max_left _ _))
    rw [hnext]
    exact hlast

/-- Two runs from the start are in order, unless both make a first step and are right of their
budgets after it. -/
theorem newton_start_or (steps : ℕ) (hb : 0 ≤ b) (hbc : b ≤ c) :
    newton b p (steps + 1) (p + margin) ≤ newton c p (steps + 1) (p + margin) ∨
      divergence p (p + margin) + 1 / 10 ^ 6 ≤ b ∧ c ≤ divergence p (1 - margin) ∧
        newton b p (steps + 1) (p + margin) = newton b p steps (next b p (p + margin)) ∧
        newton c p (steps + 1) (p + margin) = newton c p steps (next c p (p + margin)) := by
  have hstart : p + margin ∈ track p := ⟨le_rfl, hroom⟩
  have hlow := divergence_start_le hp hroom
  by_cases hstop : |divergence p (p + margin) - b| < 1 / 10 ^ 6
  · left
    rw [newton_succ b, if_pos hstop]
    exact (newton_mem hroom c (steps + 1) hstart).1
  -- The residual at the start is negative unless it is within the tolerance.
  have hfar : divergence p (p + margin) + 1 / 10 ^ 6 ≤ b := by
    by_contra hnear
    apply hstop
    rw [abs_lt]
    constructor <;> linarith [margin_real]
  have hstop' : 1 / 10 ^ 6 ≤ |divergence p (p + margin) - c| := by
    rw [abs_sub_comm]
    exact le_trans (by linarith) (le_abs_self _)
  by_cases hlast : c ≤ divergence p (1 - margin)
  · right
    refine ⟨hfar, hlast, ?_, ?_⟩
    · rw [newton_succ, if_neg hstop]
    · rw [newton_succ, if_neg (not_lt.mpr hstop')]
  · left
    rw [newton_eq_last hp hroom steps hstart (not_le.mp hlast) hstop']
    exact (newton_mem hroom b (steps + 1) hstart).2

/-- From a mean that is not small the first step leads to the right end, whatever the budget. -/
theorem next_start_eq (hmean : 1 / 10 ^ 2 ≤ p)
    (hfar : divergence p (p + margin) + 1 / 10 ^ 6 ≤ b) : next b p (p + margin) = 1 - margin := by
  have hunit := mem_unit_of_track hp hroom (show p + margin ∈ track p from ⟨le_rfl, hroom⟩)
  have hstep : 1 - margin ≤ moved p (divergence p (p + margin) - b) (p + margin) := by
    have hmoved : moved p (divergence p (p + margin) - b) (p + margin) =
        p + margin + (b - divergence p (p + margin)) * 10 ^ 8 *
          ((p + margin) * (1 - (p + margin))) := by
      unfold moved
      rw [slope_real, add_sub_cancel_left, div_div_eq_mul_div, margin_real]
      ring
    rw [hmoved]
    have hgap : 10 ^ 2 ≤ (b - divergence p (p + margin)) * 10 ^ 8 := by linarith
    have hpos := mul_pos hunit.1 (sub_pos.mpr hunit.2)
    have hmul := mul_le_mul_of_nonneg_right hgap hpos.le
    have hmargin : (0 : ℝ) ≤ margin := margin_pos.le
    have hwide : 1 - (p + margin) ≤ 10 ^ 2 * ((p + margin) * (1 - (p + margin))) := by
      nlinarith
    linarith
  exact min_eq_right (hstep.trans (le_max_left _ _))

/-- For a small mean, points with a divergence that counts are far enough from it for the slope to
be at least a hundredth. -/
theorem slope_ge_of_small (hmean : p < 1 / 10 ^ 2) {x : ℝ} (hx : x ∈ track p)
    (hdivergence : 1 / 10 ^ 6 ≤ divergence p x) : 1 / 10 ^ 2 ≤ slope p x := by
  obtain ⟨hpx, hx1⟩ := mem_Ioo_of_track hx
  have hunit := mem_unit_of_track hp hroom hx
  have hvar : 0 < x * (1 - x) := mul_pos hunit.1 (sub_pos.mpr hunit.2)
  have hle := divergence_le_slope_mul (mem_Ioo_of_margin hp hroom) hunit
  rw [slope_real] at hle ⊢
  rw [le_div_iff₀ hvar]
  rcases le_or_gt (10102 / 10 ^ 6) x with hlarge | hsmall
  · nlinarith
  · -- The divergence is at most the squared distance by the variance.
    by_contra hclose
    have hd := sub_pos.mpr hpx
    have hchi : 1 / 10 ^ 6 * (x * (1 - x)) ≤ (x - p) * (x - p) := by
      have h := hdivergence.trans hle
      rw [div_mul_eq_mul_div, le_div_iff₀ hvar] at h
      exact h
    have hvariance : x * (1 - x) ≤ 1 / 10 ^ 2 := by nlinarith
    have hsq : (x - p) * (x - p) < 1 / 10 ^ 2 * (x * (1 - x)) * (1 / 10 ^ 2 * (x * (1 - x))) :=
      mul_lt_mul'' (not_le.mp hclose) (not_le.mp hclose) hd.le hd.le
    nlinarith

/-- Runs from the start for two budgets. -/
theorem newton_start_le (steps : ℕ) (hb : 0 ≤ b) (hbc : b ≤ c) :
    newton b p (steps + 1) (p + margin) ≤ newton c p (steps + 1) (p + margin) + 1 / 10 ^ 4 ∧
      (1 / 10 ^ 2 ≤ p →
        newton b p (steps + 1) (p + margin) ≤ newton c p (steps + 1) (p + margin)) := by
  have hstart : p + margin ∈ track p := ⟨le_rfl, hroom⟩
  rcases newton_start_or hp hroom steps hb hbc with hle | ⟨hfar, hlast, hfirst, hfirst'⟩
  · exact ⟨hle.trans (le_add_of_nonneg_right (by norm_num)), fun _ => hle⟩
  have hnext := right_of_next hp hroom hstart (hbc.trans hlast)
  have hnext' := right_of_next hp hroom hstart hlast
  have horder := next_le_next hp hroom hstart hstart le_rfl hbc (Or.inr rfl)
  have hexact : 1 / 10 ^ 2 ≤ p →
      newton b p (steps + 1) (p + margin) ≤ newton c p (steps + 1) (p + margin) := by
    intro hmean
    rw [hfirst, hfirst', next_start_eq hp hroom hmean hfar,
      next_start_eq hp hroom hmean (hfar.trans hbc)]
    have hend : 1 - margin ∈ track p := ⟨hroom, le_rfl⟩
    apply newton_le_newton hp hroom steps hend hend le_rfl _ hbc hlast (by linarith)
    linarith
  refine ⟨?_, hexact⟩
  rcases le_or_gt (1 / 10 ^ 2) p with hmean | hmean
  · exact (hexact hmean).trans (le_add_of_nonneg_right (by norm_num))
  rw [hfirst, hfirst']
  set x := newton c p steps (next c p (p + margin)) with hx
  set z := newton b p steps (next b p (p + margin)) with hz
  have hxmem : x ∈ track p := newton_mem hroom c steps (next_mem hroom c _)
  have hzmem : z ∈ track p := newton_mem hroom b steps (next_mem hroom b _)
  have hxright : c ≤ divergence p x := (newton_le hp hroom steps (next_mem hroom c _) hnext').2
  rcases newton_le_newton_or hp hroom steps (next_mem hroom b _) (next_mem hroom c _) horder hbc
    hnext hnext' with hle | hnear
  · exact hle.trans (le_add_of_nonneg_right (by norm_num))
  -- The run for the smaller budget ends within the tolerance of it, and the other one not below.
  have hnonneg := divergence_nonneg (mem_Ioo_of_margin hp hroom)
    (mem_unit_of_track hp hroom hstart)
  have hslope := slope_ge_of_small hp hroom hmean hxmem (by linarith)
  have htangent := tangent_le_divergence (mem_Ioo_of_margin hp hroom)
    (mem_unit_of_track hp hroom hxmem) (mem_unit_of_track hp hroom hzmem)
  rcases le_or_gt z x with hle | hlt
  · exact hle.trans (le_add_of_nonneg_right (by norm_num))
  · have hmul := mul_le_mul_of_nonneg_right hslope (sub_pos.mpr hlt).le
    linarith

end Runs

section Index

variable {gain : ℝ} {visits n n₂ : ℕ}

theorem upper_real (gain : ℝ) (visits n : ℕ) :
    upper gain visits n =
      if 1 ≤ max (gain / visits) margin then 1
      else newton (Real.log (Nat.max n 1 : ℕ) / visits) (max (gain / visits) margin) 20
        (max (gain / visits) margin + margin) := by
  unfold upper
  rw [Scalar.one_real, Scalar.max_real]
  rfl

/-- The index after more measurements of all paths is not smaller, up to the tolerance of the Newton
steps. Without the tolerance this holds for a mean from one hundredth on that is not within the
margins of one. -/
theorem of_le_of (hvisits : 1 ≤ visits) (hn : n ≤ n₂) :
    ∃ q q₂ : ℝ, of gain visits n = .bound q ∧ of gain visits n₂ = .bound q₂ ∧ q ≤ q₂ + 1e-4 ∧
      (1e-2 ≤ gain / visits → gain / visits ≤ 1 - 2e-8 ∨ 1 ≤ gain / visits → q ≤ q₂) := by
  have hbound : ∀ n, of gain visits n = .bound (upper gain visits n) := fun n =>
    if_neg (Nat.one_le_iff_ne_zero.mp hvisits)
  refine ⟨_, _, hbound n, hbound n₂, ?_⟩
  rw [upper_real, upper_real]
  set p := max (gain / (visits : ℝ)) margin with hpdef
  have hp : margin ≤ p := le_max_right _ _
  by_cases hone : 1 ≤ p
  · rw [if_pos hone, if_pos hone]
    exact ⟨by norm_num, fun _ _ => le_rfl⟩
  rw [if_neg hone, if_neg hone]
  have hmax : (1 : ℝ) ≤ (Nat.max n 1 : ℕ) := Nat.one_le_cast.mpr (Nat.le_max_right n 1)
  have hmono : ((Nat.max n 1 : ℕ) : ℝ) ≤ (Nat.max n₂ 1 : ℕ) :=
    Nat.cast_le.mpr (max_le_max_right 1 hn)
  have hb : 0 ≤ Real.log (Nat.max n 1 : ℕ) / (visits : ℝ) :=
    div_nonneg (Real.log_nonneg hmax) (Nat.cast_nonneg visits)
  have hbc : Real.log (Nat.max n 1 : ℕ) / (visits : ℝ) ≤ Real.log (Nat.max n₂ 1 : ℕ) / visits :=
    div_le_div_of_nonneg_right (Real.log_le_log (one_pos.trans_le hmax) hmono)
      (Nat.cast_nonneg visits)
  rcases le_or_gt (p + margin) (1 - margin) with hroom | hroom
  · obtain ⟨hnear, hexact⟩ := newton_start_le hp hroom 19 hb hbc
    refine ⟨hnear.trans_eq (by norm_num), fun hmean _ => hexact ?_⟩
    exact le_trans (by linarith) (le_max_left _ _)
  · -- The only two points left are closer to each other than the tolerance.
    have hends := newton_of_no_room hroom (Real.log (Nat.max n 1 : ℕ) / (visits : ℝ)) 20
      (Or.inl rfl)
    have hends' := newton_of_no_room hroom (Real.log (Nat.max n₂ 1 : ℕ) / (visits : ℝ)) 20
      (Or.inl rfl)
    have hmargin : (margin : ℝ) = 1 / 10 ^ 8 := margin_real
    constructor
    · rcases hends with h | h <;> rcases hends' with h' | h' <;> rw [h, h'] <;> linarith
    · rintro hmean (hlow | hhigh)
      · have hmean' : p = gain / visits := max_eq_left (by linarith)
        linarith
      · exact absurd (hhigh.trans (le_max_left _ _)) hone

/-- A path with the mean one half, and one whose mean is below one hundredth, for which only the
bound with the tolerance is known. -/
theorem of_le_of_half : 1 ≤ 3 ∧ 5 ≤ 9 ∧
    (∃ q q₂ : ℝ, of (3 / 2) 3 5 = .bound q ∧ of (3 / 2) 3 9 = .bound q₂ ∧ q ≤ q₂) ∧
    (3 / 1000 : ℝ) / (3 : ℕ) < 1e-2 ∧
    ∃ q q₂ : ℝ, of (3 / 1000) 3 5 = .bound q ∧ of (3 / 1000) 3 9 = .bound q₂ ∧ q ≤ q₂ + 1e-4 := by
  obtain ⟨q, q₂, hq, hq₂, -, hexact⟩ :=
    @of_le_of (3 / 2) 3 5 9 (by decide) (by decide)
  obtain ⟨r, r₂, hr, hr₂, hnear, -⟩ :=
    @of_le_of (3 / 1000) 3 5 9 (by decide) (by decide)
  refine ⟨by decide, by decide, ⟨q, q₂, hq, hq₂, ?_⟩, by norm_num, r, r₂, hr, hr₂, hnear⟩
  exact hexact (by norm_num) (Or.inl (by norm_num))

end Index

section Tiny

theorem margin_room : (margin : ℝ) + margin ≤ 1 - margin := by
  rw [margin_real]
  norm_num

/-- The divergence from a tiny mean, between bounds without a logarithm of the other side. -/
theorem divergence_margin {q : ℝ} (hq : q ∈ track margin) :
    q - margin - margin * Real.log (q / margin) ≤ divergence margin q ∧
      divergence margin q ≤
        (q - margin) * ((1 - margin) / (1 - q)) - margin * Real.log (q / margin) := by
  have hunit := mem_Ioo_of_margin le_rfl margin_room
  have hq' := mem_unit_of_track le_rfl margin_room hq
  have hratio : 0 < (1 - margin) / (1 - q) := div_pos (sub_pos.mpr hunit.2) (sub_pos.mpr hq'.2)
  have hone : 1 - q ≠ 0 := (sub_pos.mpr hq'.2).ne'
  have hone' : (1 : ℝ) - margin ≠ 0 := (sub_pos.mpr hunit.2).ne'
  have hlow := mul_le_mul_of_nonneg_left (Real.one_sub_inv_le_log_of_pos hratio)
    (sub_pos.mpr hunit.2).le
  have hhigh := mul_le_mul_of_nonneg_left (Real.log_le_sub_one_of_pos hratio)
    (sub_pos.mpr hunit.2).le
  have hlow' : (1 - margin) * (1 - ((1 - margin) / (1 - q))⁻¹) = q - margin := by
    field_simp
    ring
  have hhigh' : (1 - margin) * ((1 - margin) / (1 - q) - 1) =
      (q - margin) * ((1 - margin) / (1 - q)) := by
    field_simp
    ring
  have hswap : Real.log (margin / q) = -Real.log (q / margin) := by
    rw [← Real.log_inv, inv_div]
  rw [divergence_real, hswap]
  constructor <;> linarith

/-- The first step from a tiny mean, for a budget of about one millionth: it leads to about twice
the budget. -/
theorem next_start_margin (hlow : 101 / 10 ^ 8 ≤ b) (hhigh : b ≤ 110 / 10 ^ 8) :
    (2 * b ≤ next b margin (margin + margin) ∧
        next b margin (margin + margin) ≤ 2 * b + 2 / 10 ^ 8) ∧
      newton b margin 20 (margin + margin) =
        newton b margin 19 (next b margin (margin + margin)) := by
  have hstart : (margin : ℝ) + margin ∈ track margin := ⟨le_rfl, margin_room⟩
  have hunit := mem_Ioo_of_margin le_rfl margin_room
  have hslope : slope (margin : ℝ) (margin + margin) = 1 / (2 * (1 - 2 / 10 ^ 8)) := by
    rw [slope_real, margin_real]
    norm_num
  have hnonneg := divergence_nonneg hunit (mem_unit_of_track le_rfl margin_room hstart)
  have hsmall := divergence_le_slope_mul hunit (mem_unit_of_track le_rfl margin_room hstart)
  rw [hslope, margin_real] at hsmall
  have hmoved : moved margin (divergence margin (margin + margin) - b) (margin + margin) =
      2 / 10 ^ 8 + 2 * (1 - 2 / 10 ^ 8) * (b - divergence margin (margin + margin)) := by
    unfold moved
    rw [hslope, margin_real]
    ring
  rw [margin_real] at hmoved hnonneg
  have hnext : next b margin (margin + margin) =
      2 / 10 ^ 8 + 2 * (1 - 2 / 10 ^ 8) * (b - divergence margin (margin + margin)) := by
    unfold next
    rw [margin_real, hmoved, max_eq_left, min_eq_left] <;> linarith
  constructor
  · rw [hnext, margin_real]
    constructor <;> linarith
  · rw [newton_succ, if_neg]
    rw [not_lt, abs_sub_comm, margin_real]
    exact le_trans (by linarith) (le_abs_self _)

theorem log_ratio_bounds {q : ℝ} (hlow : 202 / 10 ^ 8 ≤ q) (hhigh : q ≤ 222 / 10 ^ 8) :
    4.8 ≤ Real.log (q / margin) ∧ Real.log (q / margin) ≤ 5.6 := by
  have hratio : 2 ^ 7 ≤ q / margin ∧ q / margin ≤ 2 ^ 8 := by
    rw [le_div_iff₀ margin_pos, div_le_iff₀ margin_pos, margin_real]
    constructor <;> linarith
  generalize q / margin = ratio at hratio ⊢
  have hlog := Real.log_le_log (by norm_num) hratio.1
  have hlog' := Real.log_le_log (by linarith [hratio.1]) hratio.2
  rw [Real.log_pow] at hlog hlog'
  have hgt : 0.6931471803 < Real.log 2 := Real.log_two_gt_d9
  have hlt : Real.log 2 < 0.6931471808 := Real.log_two_lt_d9
  push_cast at hlog hlog'
  constructor <;> linarith

/-- The run for the smaller of two budgets stops after its first step. -/
theorem newton_margin_ge (hlow : 101 / 10 ^ 8 ≤ b) (hhigh : b ≤ 1033 / 10 ^ 9) :
    2 * b ≤ newton b margin 20 (margin + margin) := by
  obtain ⟨hnext, hfirst⟩ := next_start_margin hlow (by linarith)
  have hmem := next_mem margin_room b ((margin : ℝ) + margin)
  rw [hfirst]
  set q := next b margin (margin + margin) with hq
  obtain ⟨hlog, hlog'⟩ := log_ratio_bounds (q := q) (by linarith [hnext.1]) (by linarith [hnext.2])
  obtain ⟨hbelow, habove⟩ := divergence_margin hmem
  have hquot : (1 - margin) / (1 - q) ≤ 1 + 1 / 10 ^ 5 := by
    have hone : 0 < 1 - q := by linarith [hnext.2]
    rw [div_le_iff₀ hone, margin_real]
    linarith [hnext.2]
  have hgap : (q - margin) * ((1 - margin) / (1 - q)) ≤ (q - margin) * (1 + 1 / 10 ^ 5) := by
    apply mul_le_mul_of_nonneg_left hquot
    rw [margin_real]
    linarith [hnext.1]
  rw [margin_real] at hbelow habove hgap hlog hlog'
  have hstop : |divergence margin q - b| < 1 / 10 ^ 6 := by
    rw [abs_lt, margin_real]
    constructor <;> linarith [hnext.1, hnext.2]
  rw [newton_succ, if_pos hstop]
  exact hnext.1

/-- The run for the larger of them makes a second step, which leads far below. -/
theorem newton_margin_le (hlow : 1074 / 10 ^ 9 ≤ b) (hhigh : b ≤ 110 / 10 ^ 8) :
    newton b margin 20 (margin + margin) ≤ 2 * b - 4 / 10 ^ 7 := by
  obtain ⟨hnext, hfirst⟩ := next_start_margin (by linarith) hhigh
  have hmem := next_mem margin_room b ((margin : ℝ) + margin)
  have hunit := mem_Ioo_of_margin le_rfl margin_room
  rw [hfirst]
  set q := next b margin (margin + margin) with hq
  obtain ⟨-, hlog⟩ := log_ratio_bounds (q := q) (by linarith [hnext.1]) (by linarith [hnext.2])
  have hbelow := (divergence_margin hmem).1
  have hresidual : 1 / 10 ^ 6 ≤ divergence margin q - b := by
    rw [margin_real] at hbelow hlog ⊢
    linarith [hnext.1]
  have hright : b ≤ divergence margin q := by linarith
  have hslope := slope_pos hunit.1 (mem_Ioo_of_track hmem)
  have hflat : slope margin q ≤ 2 := by
    obtain ⟨hq0, hq1⟩ := mem_unit_of_track le_rfl margin_room hmem
    rw [slope_real, div_le_iff₀ (mul_pos hq0 (sub_pos.mpr hq1))]
    have hhalf : q * (1 / 2) ≤ q * (1 - q) :=
      mul_le_mul_of_nonneg_left (by linarith [hnext.2]) hq0.le
    linarith [hunit.1]
  have hstep : 1 / 10 ^ 6 / 2 ≤ (divergence margin q - b) / slope margin q :=
    div_le_div₀ (by linarith) hresidual hslope hflat
  have hreach : next b margin q ≤ q - 1 / 10 ^ 6 / 2 := by
    apply (min_le_left _ _).trans
    apply max_le
    · unfold moved
      linarith
    · rw [margin_real]
      linarith [hnext.1]
  rw [newton_succ, if_neg (not_lt.mpr (hresidual.trans (le_abs_self _)))]
  have hend := (newton_le le_rfl margin_room 18 (next_mem margin_room b q)
    (next_le le_rfl margin_room hmem hright).2).1
  linarith [hnext.2]

/-- A path without any bandwidth in `2 ^ 24` measurements, after `2 ^ 25` and after `2 ^ 26`
measurements of all paths: the first run stops right of the budget, within the tolerance, and the
second one does not yet. -/
theorem upper_falls :
    ¬∀ (gain : ℝ) (visits n n₂ : ℕ), 1 ≤ visits → 0 ≤ gain → gain ≤ visits → visits ≤ n →
      n ≤ n₂ → upper gain visits n ≤ upper gain visits n₂ := by
  intro hmono
  have hmean : max ((0 : ℝ) / (2 ^ 24 : ℕ)) margin = margin := by
    rw [zero_div, margin_real]
    exact max_eq_right (by norm_num)
  have hupper : ∀ k : ℕ, upper (0 : ℝ) (2 ^ 24) (2 ^ k) =
      newton (k * Real.log 2 / 2 ^ 24) margin 20 (margin + margin) := by
    intro k
    have hmax : Nat.max (2 ^ k) 1 = 2 ^ k := max_eq_left Nat.one_le_two_pow
    have hnot : ¬(1 : ℝ) ≤ margin := by
      rw [margin_real]
      norm_num
    rw [upper_real, hmean, if_neg hnot, hmax]
    rw [Nat.cast_pow, Nat.cast_pow, Nat.cast_ofNat, Real.log_pow]
  have hle := hmono 0 (2 ^ 24) (2 ^ 25) (2 ^ 26) (by norm_num) le_rfl (by positivity)
    (by norm_num) (by norm_num)
  rw [hupper, hupper] at hle
  push_cast at hle
  have hlow := Real.log_two_gt_d9
  have hhigh := Real.log_two_lt_d9
  have hge := newton_margin_ge (b := 25 * Real.log 2 / 2 ^ 24) (by linarith) (by linarith)
  have hfall := newton_margin_le (b := 26 * Real.log 2 / 2 ^ 24) (by linarith) (by linarith)
  linarith

end Tiny

end PathSelection.KlIndex
