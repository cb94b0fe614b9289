import Mathlib.Analysis.SpecialFunctions.Log.Basic
import Mathlib.Data.List.GetD
import PathSelection.Scalar

namespace PathSelection

noncomputable instance : Scalar ℝ where
  decidableLt := inferInstance
  decidableLe := inferInstance
  exp := Real.exp
  log := Real.log
  isFinite _ := true
  totalLe x y := decide (x ≤ y)

namespace Scalar

theorem zero_real : (instOfNat 0 : OfNat ℝ 0).ofNat = (0 : ℝ) := Nat.cast_zero

theorem one_real : (instOfNat 1 : OfNat ℝ 1).ofNat = (1 : ℝ) := Nat.cast_one

theorem min_real (a b : ℝ) : Scalar.min a b = a ⊓ b := by
  unfold Scalar.min
  split
  · next h => exact (min_eq_right (le_of_lt h)).symm
  · next h =>
    rw [if_pos (beq_self_eq_true a)]
    exact (min_eq_left (not_lt.mp h)).symm

theorem max_real (a b : ℝ) : Scalar.max a b = a ⊔ b := by
  unfold Scalar.max
  split
  · next h => exact (max_eq_right (le_of_lt h)).symm
  · next h =>
    rw [if_pos (beq_self_eq_true a)]
    exact (max_eq_left (not_lt.mp h)).symm

theorem abs_real (a : ℝ) : Scalar.abs a = |a| := by
  unfold Scalar.abs
  rw [zero_real]
  split
  · next h => exact (abs_of_neg h).symm
  · next h => exact (abs_of_nonneg (not_lt.mp h)).symm

theorem sum_real (xs : List ℝ) : Scalar.sum xs = xs.sum := by
  unfold Scalar.sum
  rw [List.sum_eq_foldl, zero_real]
  congr 1
  exact neg_zero

theorem totalLe_real {a b : ℝ} : Scalar.totalLe a b = true ↔ a ≤ b := decide_eq_true_iff

theorem totalLe_trans_real (a b c : ℝ) (hab : Scalar.totalLe a b = true)
    (hbc : Scalar.totalLe b c = true) : Scalar.totalLe a c = true :=
  totalLe_real.mpr ((totalLe_real.mp hab).trans (totalLe_real.mp hbc))

theorem totalLe_total_real (a b : ℝ) : (Scalar.totalLe a b || Scalar.totalLe b a) = true := by
  rw [Bool.or_eq_true, totalLe_real, totalLe_real]
  exact le_total a b

end Scalar

/-- A condition on all entries, by their positions. -/
theorem forall_mem_iff_getD {xs : List ℝ} {P : ℝ → Prop} :
    (∀ x ∈ xs, P x) ↔ ∀ i < xs.length, P (xs.getD i 0) := by
  constructor
  · intro h i hi
    rw [List.getD_eq_getElem _ 0 hi]
    exact h _ (List.getElem_mem hi)
  · intro h x hx
    obtain ⟨i, hi, rfl⟩ := List.mem_iff_getElem.mp hx
    rw [← List.getD_eq_getElem _ 0 hi]
    exact h i hi

end PathSelection
