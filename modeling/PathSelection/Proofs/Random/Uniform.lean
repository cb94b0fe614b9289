import Mathlib.MeasureTheory.Integral.Prod
import Mathlib.MeasureTheory.Measure.Lebesgue.Basic
import Mathlib.Probability.Independence.InfinitePi

namespace PathSelection

open MeasureTheory ProbabilityTheory

/-- The uniform distribution on `[0, 1)`. -/
noncomputable def unitUniform : Measure ℝ := volume.restrict (Set.Ico 0 1)

instance : IsProbabilityMeasure unitUniform := by
  refine ⟨?_⟩
  rw [unitUniform, Measure.restrict_apply_univ, Real.volume_Ico, sub_zero, ENNReal.ofReal_one]

/-- Independent draws, each of them uniform on `[0, 1)`. -/
noncomputable def uniformDraws : Measure (ℕ → ℝ) := Measure.infinitePi fun _ => unitUniform

instance : IsProbabilityMeasure uniformDraws := by
  unfold uniformDraws
  infer_instance

/-- The draws after the first one. -/
def laterDraws (ω : ℕ → ℝ) : ℕ → ℝ := fun n => ω (n + 1)

theorem measurable_laterDraws : Measurable laterDraws := by
  unfold laterDraws
  fun_prop

theorem uniformDraws_map_first : uniformDraws.map (fun ω => ω 0) = unitUniform :=
  Measure.infinitePi_map_eval _ 0

theorem uniformDraws_map_laterDraws : uniformDraws.map laterDraws = uniformDraws :=
  Measure.map_infinitePi_infinitePi_of_inj (P := fun _ : ℕ => unitUniform)
    (add_left_injective 1)

theorem indepFun_first_laterDraws :
    IndepFun (fun ω : ℕ → ℝ => ω 0) laterDraws uniformDraws := by
  let draw : ℕ → MeasurableSpace (ℕ → ℝ) := fun n =>
    MeasurableSpace.comap (fun ω => ω n) inferInstance
  have hcoord : iIndepFun (fun n (ω : ℕ → ℝ) => ω n) uniformDraws :=
    iIndepFun_infinitePi (X := fun _ x => x) fun _ => measurable_id
  have hle : ∀ n, draw n ≤ MeasurableSpace.pi := fun n => (measurable_pi_apply n).comap_le
  have hsplit : Indep (⨆ n ∈ ({0} : Set ℕ), draw n) (⨆ n ∈ ({0} : Set ℕ)ᶜ, draw n)
      uniformDraws :=
    indep_iSup_of_disjoint hle hcoord.iIndep disjoint_compl_right
  rw [IndepFun_iff_Indep]
  refine indep_of_indep_of_le_right (indep_of_indep_of_le_left hsplit ?_) ?_
  · exact le_iSup₂ (f := fun n (_ : n ∈ ({0} : Set ℕ)) => draw n) 0 rfl
  · apply Measurable.comap_le
    refine @measurable_pi_lambda _ _ _ (⨆ n ∈ ({0} : Set ℕ)ᶜ, draw n) _ _ ?_
    intro n
    have hn : n + 1 ∈ ({0} : Set ℕ)ᶜ := Nat.succ_ne_zero n
    have hdraw : Measurable[draw (n + 1)] fun ω : ℕ → ℝ => ω (n + 1) := comap_measurable _
    exact hdraw.mono (le_iSup₂ (f := fun n (_ : n ∈ ({0} : Set ℕ)ᶜ) => draw n) _ hn) le_rfl

/-- The first draw and the later ones as a pair. -/
theorem uniformDraws_map_split :
    uniformDraws.map (fun ω => (ω 0, laterDraws ω)) = unitUniform.prod uniformDraws := by
  rw [indepFun_first_laterDraws.map_prod_eq_prod_map_map (measurable_pi_apply 0).aemeasurable
    measurable_laterDraws.aemeasurable, uniformDraws_map_first, uniformDraws_map_laterDraws]

/-- A draw is below `c` with probability `c`. -/
theorem unitUniform_real_Iio {c : ℝ} (h0 : 0 ≤ c) (h1 : c ≤ 1) :
    unitUniform.real (Set.Iio c) = c := by
  have hset : Set.Iio c ∩ Set.Ico 0 1 = Set.Ico 0 c := by
    ext x
    simp only [Set.mem_inter_iff, Set.mem_Iio, Set.mem_Ico]
    constructor
    · rintro ⟨hx, h, -⟩
      exact ⟨h, hx⟩
    · rintro ⟨h, hx⟩
      exact ⟨hx, h, hx.trans_le h1⟩
  rw [unitUniform, measureReal_restrict_apply measurableSet_Iio, hset, Real.volume_real_Ico,
    sub_zero, max_eq_left h0]

/-- The mean over a choice by the first draw, when the rest depends on the later draws only. -/
theorem integral_choice {c : ℝ} (h0 : 0 ≤ c) (h1 : c ≤ 1) {f g : (ℕ → ℝ) → ℝ}
    (hf : Integrable f uniformDraws) (hg : Integrable g uniformDraws) :
    ∫ ω, (if ω 0 < c then f (laterDraws ω) else g (laterDraws ω)) ∂uniformDraws =
      c * ∫ ω, f ω ∂uniformDraws + (1 - c) * ∫ ω, g ω ∂uniformDraws := by
  let below : Set (ℝ × (ℕ → ℝ)) := {p | p.1 < c}
  let choice : ℝ × (ℕ → ℝ) → ℝ := below.piecewise (fun p => f p.2) (fun p => g p.2)
  have hvalue : ∀ p, choice p = if p.1 < c then f p.2 else g p.2 := fun p => rfl
  have hbelow : MeasurableSet below := measurableSet_lt measurable_fst measurable_const
  have hchoice : Integrable choice (unitUniform.prod uniformDraws) :=
    Integrable.piecewise hbelow (hf.comp_snd unitUniform).integrableOn
      (hg.comp_snd unitUniform).integrableOn
  have hsplit : ∫ ω, (if ω 0 < c then f (laterDraws ω) else g (laterDraws ω)) ∂uniformDraws =
      ∫ p, choice p ∂(unitUniform.prod uniformDraws) := by
    have hpair : Measurable fun ω : ℕ → ℝ => (ω 0, laterDraws ω) :=
      (measurable_pi_apply 0).prodMk measurable_laterDraws
    rw [← uniformDraws_map_split] at hchoice ⊢
    rw [integral_map hpair.aemeasurable hchoice.aestronglyMeasurable]
    simp only [hvalue]
  have hinner : ∀ u, ∫ ω, choice (u, ω) ∂uniformDraws =
      (Set.Iio c).indicator (fun _ => ∫ ω, f ω ∂uniformDraws - ∫ ω, g ω ∂uniformDraws) u +
        ∫ ω, g ω ∂uniformDraws := by
    intro u
    by_cases hu : u < c
    · simp [hvalue, hu]
    · simp [hvalue, hu]
  rw [hsplit, integral_prod _ hchoice]
  simp only [hinner]
  rw [integral_add ((integrable_const _).indicator measurableSet_Iio) (integrable_const _),
    integral_indicator_const _ measurableSet_Iio, integral_const, unitUniform_real_Iio h0 h1,
    probReal_univ, one_smul, smul_eq_mul]
  ring

end PathSelection
