import Mathlib.Algebra.Order.BigOperators.Group.Finset
import PathSelection.Proofs.Ranking
import PathSelection.Proofs.Reals

namespace PathSelection

section Ordered

variable {R : Type} [AddCommGroup R] [LinearOrder R] [IsOrderedAddMonoid R]

/-- Of two sets of one size, one has no larger sum if no value that only it has is larger than one
that only the other has. -/
theorem sum_le_sum_of_exchange {ι : Type} [DecidableEq ι] {chosen other : Finset ι} {f : ι → R}
    (hcard : other.card = chosen.card)
    (hle : ∀ i ∈ chosen \ other, ∀ j ∈ other \ chosen, f j ≤ f i) :
    ∑ j ∈ other, f j ≤ ∑ i ∈ chosen, f i := by
  rw [← sub_nonneg, ← Finset.sum_sdiff_sub_sum_sdiff, sub_nonneg]
  have hsdiff : (other \ chosen).card = (chosen \ other).card := Finset.card_sdiff_comm hcard
  rcases (other \ chosen).eq_empty_or_nonempty with hempty | hnonempty
  · rw [hempty, Finset.card_empty] at hsdiff
    rw [hempty, Finset.card_eq_zero.mp hsdiff.symm]
  · obtain ⟨top, htop, hmax⟩ := Finset.exists_max_image (other \ chosen) f hnonempty
    calc ∑ j ∈ other \ chosen, f j
        ≤ (other \ chosen).card • f top := Finset.sum_le_card_nsmul _ _ _ hmax
      _ = (chosen \ other).card • f top := by rw [hsdiff]
      _ ≤ ∑ i ∈ chosen \ other, f i :=
          Finset.card_nsmul_le_sum _ _ _ fun i hi => hle i hi top htop

/-- What is ranked before the others has the greatest sum, if nothing is smaller than what it
precedes. -/
theorem Leading.sum_le {κ : Type} {le : κ → κ → Bool} {values : List κ} {m : ℕ} {indices : List ℕ}
    (h : Leading le values m indices) {f : ℕ → R}
    (hf : ∀ i j, Precedes le values i j → f j ≤ f i) {other : Finset ℕ}
    (hsubset : other ⊆ Finset.range values.length) (hcard : other.card = m) :
    ∑ j ∈ other, f j ≤ (indices.map f).sum := by
  rw [← List.sum_toFinset f h.nodup]
  apply sum_le_sum_of_exchange
  · rw [hcard, List.toFinset_card_of_nodup h.nodup, h.length_eq]
  · intro i hi j hj
    rw [Finset.mem_sdiff, List.mem_toFinset] at hi hj
    exact hf i j (h.precedes i hi.1 j (Finset.mem_range.mp (hsubset hj.1)) hj.2)

end Ordered

variable {values : List ℝ} {m : ℕ}

theorem isGreatest_sum_topIndices (hm : m ≤ values.length) :
    IsGreatest {sum | ∃ S ⊆ Finset.range values.length, S.card = m ∧
        ∑ i ∈ S, values.getD i 0 = sum}
      ((topIndices Scalar.totalLe values m).map (values.getD · 0)).sum := by
  have hleading : Leading (fun a b => Scalar.totalLe b a) values m
      (topIndices Scalar.totalLe values m) :=
    leading_firstIndices (fun a b c hab hbc => Scalar.totalLe_trans_real c b a hbc hab)
      (fun a b => Scalar.totalLe_total_real b a) hm
  have hnodup : (topIndices Scalar.totalLe values m).Nodup := firstIndices_nodup _ _ _
  constructor
  · refine ⟨(topIndices Scalar.totalLe values m).toFinset, fun i hi => ?_, ?_, ?_⟩
    · exact Finset.mem_range.mpr (hleading.lt_length i (List.mem_toFinset.mp hi))
    · rw [List.toFinset_card_of_nodup hnodup, hleading.length_eq]
    · exact List.sum_toFinset _ hnodup
  · rintro _ ⟨other, hsubset, hcard, rfl⟩
    refine hleading.sum_le ?_ hsubset hcard
    rintro i j ⟨hi, hj, hle, -⟩
    rw [List.getD_eq_getElem _ 0 hi, List.getD_eq_getElem _ 0 hj]
    exact Scalar.totalLe_real.mp hle

end PathSelection
