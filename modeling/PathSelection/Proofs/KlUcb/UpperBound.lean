import PathSelection.Proofs.Binary64.Rounding
import PathSelection.Proofs.KlUcb.Bounds

namespace PathSelection.KlIndex

open Float.Model Float.Model.UnpackedFloat

/-- The margin, after rounding. -/
def roundedMargin : ℚ := magnitude 6044629098073146 (-79)

/-- The right end of the Newton steps, after rounding. -/
def rightEnd : ℚ := magnitude 9007199164668999 (-53)

theorem roundedMargin_pos : 0 < roundedMargin := magnitude_pos (by decide) _

theorem rightEnd_pos : 0 < rightEnd := magnitude_pos (by decide) _

theorem rightEnd_lt_one : rightEnd < 1 := by
  unfold rightEnd magnitude
  norm_num

theorem roundedMargin_lt_rightEnd : roundedMargin < rightEnd := by
  unfold rightEnd roundedMargin magnitude
  norm_num

theorem represents_one_sub_margin : Represents (1 - margin) rightEnd :=
  @represents_of_unpack (1 - margin) 9007199164668999 (-53) (by decide) rfl

theorem represents_margin : Represents margin roundedMargin :=
  @represents_of_unpack margin 6044629098073146 (-79) (by decide) rfl

section Steps

variable {p q lo hi : Float} {u v w : ℚ}

/-- Cutting off a value on both sides leads into the interval, or to its right end. -/
theorem clamp_cases (hlo : Represents lo u) (hhi : Represents hi w) (a : Float) :
    Scalar.min (Scalar.max a lo) hi = hi ∨
      ∃ t, Represents (Scalar.min (Scalar.max a lo) hi) t ∧ u ≤ t ∧ t ≤ w := by
  have hmax : Scalar.max a lo = lo ∨ Scalar.max a lo = a ∧ (a == a) = true ∧ ¬ a < lo := by
    unfold Scalar.max
    split
    · exact Or.inl rfl
    · next hlow =>
      split
      · next hself => exact Or.inr ⟨rfl, hself, hlow⟩
      · exact Or.inl rfl
  generalize Scalar.max a lo = b at hmax
  unfold Scalar.min
  split
  · exact Or.inl rfl
  · next hhigh =>
    split
    · next hself =>
      right
      rcases hmax with rfl | ⟨rfl, -, hlow⟩
      · exact ⟨u, hlo, le_rfl, not_lt.mp fun h => hhigh ((hhi.lt_iff hlo).mpr h)⟩
      · exact exists_represents hlo hhi hself hlow hhigh
    · exact Or.inl rfl

/-- The steps end at their start, at the right end or between the two. -/
theorem newton_cases (hlo : Represents (p + margin) u) (hhi : Represents (1 - margin) w)
    (budget : Float) (steps : ℕ) :
    newton budget p steps (p + margin) = p + margin ∨
      newton budget p steps (p + margin) = 1 - margin ∨
      ∃ t, Represents (newton budget p steps (p + margin)) t ∧ u ≤ t ∧ t ≤ w := by
  apply newton_induction (P := fun q => q = p + margin ∨ q = 1 - margin ∨
    ∃ t, Represents q t ∧ u ≤ t ∧ t ≤ w) _ budget steps (Or.inl rfl)
  intro a
  exact Or.inr (clamp_cases hlo hhi a)

/-- The start of the steps is at most one if `p` is not beyond the right end, and else at least
one. -/
theorem exists_start (hp : Represents p v) (hpos : 0 < v) (hone : v < 1) :
    ∃ u, Represents (p + margin) u ∧ v ≤ u ∧ (v ≤ rightEnd → u ≤ 1) ∧ (rightEnd < v → 1 ≤ u) := by
  have hle : v + roundedMargin ≤ 2 ^ 64 := by
    have hbelow : roundedMargin ≤ 1 := by
      unfold roundedMargin magnitude
      norm_num
    linarith
  obtain ⟨u, hu, hbeside⟩ := represents_add hp represents_margin hpos roundedMargin_pos
    represents_two_pow_64 hle
  have hup : v ≤ u := (hbeside hp).1 (le_add_of_nonneg_right roundedMargin_pos.le)
  refine ⟨u, hu, hup, fun hroom => ?_, fun hbeyond => ?_⟩
  · apply (hbeside represents_one).2
    have hsum : rightEnd + roundedMargin ≤ 1 := by
      unfold rightEnd roundedMargin magnitude
      norm_num
    linarith
  · -- The next number after the right end is already closer to one than the margin.
    apply (hbeside represents_one).1
    obtain ⟨m, e, -, -, hcanonical, -, rfl⟩ := hp.exists_canonical hpos
    have hnext : magnitude 9007199164669000 (-53) ≤ magnitude m e :=
      hcanonical.succ_le ⟨by decide, by decide, by decide⟩ ⟨by decide, by decide, by decide⟩ hbeyond
    have hsum : 1 ≤ magnitude 9007199164669000 (-53) + roundedMargin := by
      unfold roundedMargin magnitude
      norm_num
    linarith

theorem newton_represents (hp : Represents p v) (hpos : 0 < v) (hroom : v ≤ rightEnd)
    (budget : Float) (steps : ℕ) :
    ∃ t, Represents (newton budget p steps (p + margin)) t ∧ v ≤ t ∧ t ≤ 1 := by
  obtain ⟨u, hu, hvu, hu1, -⟩ := exists_start hp hpos (hroom.trans_lt rightEnd_lt_one)
  rcases newton_cases hu represents_one_sub_margin budget steps with hq | hq | ⟨t, ht, hut, htw⟩
  · rw [hq]
    exact ⟨u, hu, hvu, hu1 hroom⟩
  · rw [hq]
    exact ⟨_, represents_one_sub_margin, hroom, rightEnd_lt_one.le⟩
  · exact ⟨t, ht, hvu.trans hut, htw.trans rightEnd_lt_one.le⟩

/-- Beyond the right end the two ends have crossed, and no step leads between them. -/
theorem newton_of_beyond (hp : Represents p v) (hbeyond : rightEnd < v) (hone : v < 1)
    (budget : Float) (steps : ℕ) :
    newton budget p steps (p + margin) = 1 - margin ∨
      newton budget p steps (p + margin) = p + margin ∧ 1 ≤ p + margin := by
  have hpos : 0 < v := rightEnd_pos.trans hbeyond
  obtain ⟨u, hu, -, -, hu1⟩ := exists_start hp hpos hone
  rcases newton_cases hu represents_one_sub_margin budget steps with hq | hq | ⟨t, ht, hut, htw⟩
  · exact Or.inr ⟨hq, (represents_one.le_iff hu).mpr (hu1 hbeyond)⟩
  · exact Or.inl hq
  · exact absurd ((hu1 hbeyond).trans (hut.trans htw)) (not_le.mpr rightEnd_lt_one)

end Steps

section Means

variable {gain : Float} {visits : ℕ} {v w : ℚ} {x y : Float}

theorem exists_mean (hvisits : 0 < visits) (hword : visits < 2 ^ 64) (hgain : 0 ≤ gain)
    (hle : gain ≤ (visits : Float)) :
    ∃ v, Represents (gain / (visits : Float)) v ∧ 0 ≤ v ∧ v ≤ 1 := by
  have hzero : Represents 0 0 := represents_pack_zero .positive
  obtain ⟨w, hw, hbeside⟩ := represents_ofNat hvisits hword.le
  have hpos : 0 < w := one_pos.trans_le ((hbeside represents_one).1 (by exact_mod_cast hvisits))
  obtain ⟨x, hx, hx0, hxw⟩ := exists_represents_of_le hzero hw hgain hle
  exact represents_div hx hw hx0 hpos hxw

theorem upper_represents (hv : Represents (gain / (visits : Float)) v)
    (hroom : v ≤ rightEnd ∨ v = 1) (total : ℕ) :
    ∃ t, Represents (upper gain visits total) t ∧ v ≤ t ∧ t ≤ 1 := by
  -- The steps work with the mean or, if that is smaller, with the margin.
  obtain ⟨p, hp, w, hw, hvw, hpos, hroom'⟩ : ∃ p, Scalar.max (gain / (visits : Float)) margin = p ∧
      ∃ w, Represents p w ∧ v ≤ w ∧ 0 < w ∧ (w ≤ rightEnd ∨ w = 1) := by
    rcases hv.max_cases represents_margin with ⟨hmax, hle⟩ | ⟨hmax, hlt⟩
    · exact ⟨_, hmax, v, hv, le_rfl, roundedMargin_pos.trans_le hle, hroom⟩
    · exact ⟨_, hmax, _, represents_margin, hlt.le, roundedMargin_pos,
        Or.inl roundedMargin_lt_rightEnd.le⟩
  unfold upper
  dsimp only
  rw [hp]
  split
  · refine ⟨1, represents_one, ?_, le_rfl⟩
    rcases hroom with hend | rfl
    · exact hend.trans rightEnd_lt_one.le
    · exact le_rfl
  · next hone =>
    have hend : w ≤ rightEnd := by
      rcases hroom' with hend | rfl
      · exact hend
      · exact absurd ((represents_one.le_iff hw).mpr le_rfl) hone
    obtain ⟨t, ht, hwt, ht1⟩ := newton_represents hw hpos hend
      (Scalar.log ((Nat.max total 1 : ℕ) : Float) / (visits : Float)) 20
    exact ⟨t, ht, hvw.trans hwt, ht1⟩

theorem upper_of_beyond (hv : Represents (gain / (visits : Float)) v) (hbeyond : rightEnd < v)
    (hone : v < 1) (total : ℕ) :
    upper gain visits total = 1 - margin ∨
      upper gain visits total = gain / (visits : Float) + margin ∧
        1 ≤ gain / (visits : Float) + margin := by
  have hmax : Scalar.max (gain / (visits : Float)) margin = gain / (visits : Float) := by
    rcases hv.max_cases represents_margin with ⟨hmax, -⟩ | ⟨-, hlt⟩
    · exact hmax
    · exact absurd (hlt.trans roundedMargin_lt_rightEnd) (not_lt.mpr hbeyond.le)
  have hbelow : ¬ 1 ≤ gain / (visits : Float) := fun h =>
    absurd ((represents_one.le_iff hv).mp h) (not_le.mpr hone)
  unfold upper
  dsimp only
  rw [hmax, if_neg hbelow]
  exact newton_of_beyond hv hbeyond hone _ 20

/-- The index of a path whose mean is in the unit interval lies between its mean and one. The only
means without such a bound are those closer to one than the margin: their index is the right end of
the steps, which is below the mean, or the start of the steps, which is not below one. -/
theorem of_bounds (hvisits : 0 < visits) (hword : visits < 2 ^ 64) (hgain : 0 ≤ gain)
    (hle : gain ≤ (visits : Float)) (total : ℕ) :
    ∃ q, KlIndex.of gain visits total = .bound q ∧
      (¬ (1 - margin < gain / (visits : Float) ∧ gain / (visits : Float) < 1) →
        gain / (visits : Float) ≤ q ∧ q ≤ 1) ∧
      (1 - margin < gain / (visits : Float) ∧ gain / (visits : Float) < 1 →
        q = 1 - margin ∨ q = gain / (visits : Float) + margin ∧ 1 ≤ q) := by
  obtain ⟨v, hv, -, hv1⟩ := exists_mean hvisits hword hgain hle
  rw [represents_one_sub_margin.lt_iff hv, hv.lt_iff represents_one]
  refine ⟨upper gain visits total, if_neg hvisits.ne', fun hroom => ?_, fun hbeyond => ?_⟩
  · have hcases : v ≤ rightEnd ∨ v = 1 := by
      rcases le_or_gt v rightEnd with hle | hgt
      · exact Or.inl hle
      · exact Or.inr (le_antisymm hv1 (not_lt.mp fun hlt => hroom ⟨hgt, hlt⟩))
    obtain ⟨t, ht, hvt, ht1⟩ := upper_represents hv hcases total
    exact ⟨(hv.le_iff ht).mpr hvt, (ht.le_iff represents_one).mpr ht1⟩
  · rcases upper_of_beyond hv hbeyond.1 hbeyond.2 total with hq | ⟨hq, hone⟩
    · exact Or.inl hq
    · exact Or.inr ⟨hq, hq ▸ hone⟩

theorem of_bounds_half :
    ∃ q, KlIndex.of (0.5 : Float) 1 2 = .bound q ∧ 0.5 / ((1 : ℕ) : Float) ≤ q ∧ q ≤ 1 := by
  obtain ⟨q, hq, hbounds, -⟩ := @of_bounds 0.5 1 (by decide) (by decide) (by decide) (by decide) 2
  exact ⟨q, hq, hbounds (by decide)⟩

/-- With the mean 0.999999995 the right end is below the mean, and the start is beyond one. -/
theorem of_leaves_bounds :
    ¬ ∃ q, KlIndex.of (0.999999995 : Float) 1 2 = .bound q ∧
      0.999999995 / ((1 : ℕ) : Float) ≤ q ∧ q ≤ 1 := by
  rintro ⟨q, hq, hmean, hone⟩
  obtain rfl : upper (0.999999995 : Float) 1 2 = q := KlIndex.bound.inj hq
  obtain ⟨v, hv, -, -⟩ := @exists_mean 0.999999995 1 (by decide) (by decide) (by decide) (by decide)
  have hbeyond : rightEnd < v := (represents_one_sub_margin.lt_iff hv).mp (by decide)
  have hbelow : v < 1 := (hv.lt_iff represents_one).mp (by decide)
  -- The logarithms do not matter: both ends that the steps can have are out of bounds.
  rcases upper_of_beyond hv hbeyond hbelow 2 with hend | ⟨hstart, -⟩
  · rw [hend] at hmean
    exact absurd hmean (by decide)
  · rw [hstart] at hone
    exact absurd hone (by decide)

end Means

end PathSelection.KlIndex
