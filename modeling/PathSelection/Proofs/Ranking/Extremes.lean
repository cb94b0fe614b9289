import PathSelection.Proofs.Binary64.Order
import PathSelection.Proofs.Ranking.Sums

namespace PathSelection

open scoped BigOperators

/-- An order in which any two values can be compared; different values may be equal in it. -/
structure TotalPreorder {κ : Type} (le : κ → κ → Bool) : Prop where
  trans : ∀ a b c, le a b = true → le b c = true → le a c = true
  total : ∀ a b, (le a b || le b a) = true

section Extremes

variable {κ : Type} {le : κ → κ → Bool}

theorem TotalPreorder.flip (h : TotalPreorder le) : TotalPreorder fun a b => le b a :=
  ⟨fun a b c hab hbc => h.trans c b a hbc hab, fun a b => h.total b a⟩

theorem totalPreorder_float : TotalPreorder (Scalar.totalLe : Float → Float → Bool) :=
  ⟨floatTotalLe_trans, floatTotalLe_total⟩

theorem firstIndices_min (le : κ → κ → Bool) (values : List κ) (m : ℕ) :
    firstIndices le values (min m values.length) = firstIndices le values m := by
  unfold firstIndices
  rw [← length_ranking le values, ← List.take_eq_take_min]

theorem leading_iff (hle : TotalPreorder le) (values : List κ) (m : ℕ) (indices : List ℕ) :
    Leading le values (min m values.length) indices ↔ indices = firstIndices le values m := by
  rw [← firstIndices_min]
  constructor
  · exact fun h => h.eq_firstIndices hle.trans hle.total
  · rintro rfl
    exact leading_firstIndices hle.trans hle.total (Nat.min_le_right m _)

end Extremes

section Sums

variable {values : List Float} {value : ℕ → ℚ} {m : ℕ} {others : Finset ℕ}

/-- As finite numbers are ranked by their values, no other indices have a larger sum than the first
ones of a ranking, and in the opposite order no smaller one. -/
theorem sum_extremeIndices
    (hvalue : ∀ i, (hi : i < values.length) → Represents values[i] (value i))
    (hsubset : others ⊆ Finset.range values.length) (hcard : others.card = min m values.length) :
    ∑ i ∈ others, value i ≤ ((topIndices Scalar.totalLe values m).map value).sum ∧
      ((bottomIndices Scalar.totalLe values m).map value).sum ≤ ∑ i ∈ others, value i := by
  have hmono {i j : ℕ} (hi : i < values.length) (hj : j < values.length)
      (hle : Scalar.totalLe values[i] values[j] = true) : value i ≤ value j :=
    (hvalue i hi).le_of_totalLe (hvalue j hj) hle
  have htop := (leading_iff totalPreorder_float.flip values m _).mpr rfl
  have hbottom := (leading_iff totalPreorder_float values m _).mpr rfl
  constructor
  · apply htop.sum_le _ hsubset hcard
    rintro i j ⟨hi, hj, hle, -⟩
    exact hmono hj hi hle
  · apply hbottom.sum_le (R := ℚᵒᵈ) _ hsubset hcard
    rintro i j ⟨hi, hj, hle, -⟩
    exact hmono hi hj hle

end Sums

/-- What the largest and the smallest values of a list are, for every order that compares any two
values, such as the one of all binary64 numbers, and what their sums are, for finite numbers. -/
theorem extremeIndices_characterized :
    (∀ {κ : Type} {le : κ → κ → Bool}, TotalPreorder le → ∀ (values : List κ) (m : ℕ),
      (∀ indices, Leading (fun a b => le b a) values (min m values.length) indices ↔
        indices = topIndices le values m) ∧
      (∀ indices, Leading le values (min m values.length) indices ↔
        indices = bottomIndices le values m) ∧
      (topIndices le values m).Nodup ∧ (bottomIndices le values m).Nodup ∧
      ∀ n, m ≤ n → topIndices le values m <+: topIndices le values n ∧
        bottomIndices le values m <+: bottomIndices le values n) ∧
    TotalPreorder (Scalar.totalLe : Float → Float → Bool) ∧
    ∀ (values : List Float) (value : ℕ → ℚ),
      (∀ i, (hi : i < values.length) → Represents values[i] (value i)) →
      ∀ (m : ℕ), ∀ others ⊆ Finset.range values.length, others.card = min m values.length →
        ∑ i ∈ others, value i ≤ ((topIndices Scalar.totalLe values m).map value).sum ∧
        ((bottomIndices Scalar.totalLe values m).map value).sum ≤ ∑ i ∈ others, value i := by
  refine ⟨fun {κ le} hle values m => ⟨?_, ?_, ?_, ?_, fun n hn => ⟨?_, ?_⟩⟩, totalPreorder_float,
    fun values value hvalue m others hsubset hcard => ?_⟩
  · exact leading_iff hle.flip values m
  · exact leading_iff hle values m
  · exact firstIndices_nodup _ _ _
  · exact firstIndices_nodup _ _ _
  · exact firstIndices_mono _ _ hn
  · exact firstIndices_mono _ _ hn
  · exact sum_extremeIndices hvalue hsubset hcard

/-- Infinity, a value that is no number and zeros of both signs, and then finite numbers of which
two are equal. -/
theorem extremeIndices_characterized_ties :
    topIndices Scalar.totalLe [-0.0, 0.0, 1.0 / 0.0, 0.0 / 0.0, (0.0 : Float)] 4 = [3, 2, 1, 4] ∧
      bottomIndices Scalar.totalLe [0.5, 0.75, (0.5 : Float)] 2 = [0, 2] ∧
      (([0, 2] : List ℕ).map ([1 / 2, 3 / 4, (1 / 2 : ℚ)].getD · 0)).sum ≤
        ∑ i ∈ ({1, 2} : Finset ℕ), [1 / 2, 3 / 4, (1 / 2 : ℚ)].getD i 0 := by
  obtain ⟨hranked, hfloat, hsums⟩ := extremeIndices_characterized
  have htop := (hranked hfloat [-0.0, 0.0, 1.0 / 0.0, 0.0 / 0.0, (0.0 : Float)] 4).1 [3, 2, 1, 4]
  have hbottom := (hranked hfloat [0.5, 0.75, (0.5 : Float)] 2).2.1 [0, 2]
  have hlow := hbottom.mp ⟨rfl, by decide, by unfold Precedes; decide, by unfold Precedes; decide⟩
  have hhalf : Represents 0.5 (1 / 2) := by
    rw [show (1 / 2 : ℚ) = magnitude (2 ^ 52) (-53) by norm_num [magnitude]]
    exact @represents_of_unpack _ _ _ (by decide) rfl
  have hmore : Represents 0.75 (3 / 4) := by
    rw [show (3 / 4 : ℚ) = magnitude (3 * 2 ^ 51) (-53) by norm_num [magnitude]]
    exact @represents_of_unpack _ _ _ (by decide) rfl
  have hvalue : ∀ i, (hi : i < [0.5, 0.75, (0.5 : Float)].length) →
      Represents [0.5, 0.75, (0.5 : Float)][i] ([1 / 2, 3 / 4, (1 / 2 : ℚ)].getD i 0) := by
    rintro (_ | _ | _ | i) hi
    · exact hhalf
    · exact hmore
    · exact hhalf
    · have hlt : i + 3 < 3 := hi
      omega
  have hsum := (hsums _ _ hvalue 2 {1, 2} (by decide) rfl).2
  rw [← hlow] at hsum
  refine ⟨(htop.mp ⟨rfl, by decide, ?_, ?_⟩).symm, hlow.symm, hsum⟩
  · unfold Precedes
    decide
  · unfold Precedes
    decide

end PathSelection
