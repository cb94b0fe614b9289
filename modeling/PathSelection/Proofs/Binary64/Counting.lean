import PathSelection.Proofs.Binary64.Rounding

namespace PathSelection

open Float.Model Float.Model.UnpackedFloat

variable {x : Float}

/-- Subtracting a zero of either sign. -/
theorem one_sub_zero (h : (x == 0) = true) : 1 - x = 1 := by
  change (x.toModel.unpack.compare (.zero .positive) == some .eq) = true at h
  have hsub : UnpackedFloat.sub .binary64 (1 : Float).toModel.unpack x.toModel.unpack =
      (1 : Float).toModel.unpack := by
    cases hunpack : x.toModel.unpack with
    | zero sign => cases sign <;> rfl
    | finite sign | infinity sign =>
      rw [hunpack] at h
      cases sign <;> exact absurd h Bool.false_ne_true
    | notANumber =>
      rw [hunpack] at h
      exact absurd h Bool.false_ne_true
  change Float.ofModel
    (.pack (.sub .binary64 (1 : Float).toModel.unpack x.toModel.unpack)) = 1
  rw [hsub]
  rfl

/-- A number from one on, up to the one at which counting stops. -/
def Counted (x : Float) : Prop := ∃ v, Represents x v ∧ 1 ≤ v ∧ v ≤ 2 ^ 53

theorem counted_one : Counted 1 := ⟨1, represents_one, le_rfl, by norm_num⟩

theorem represents_two_pow_53 : Represents 9007199254740992 (2 ^ 53) := by
  have hunpack := @represents_of_unpack 9007199254740992 (2 ^ 52) 1 (by decide) rfl
  have hvalue : magnitude (2 ^ 52) 1 = 2 ^ 53 := by
    unfold magnitude
    norm_num
  rw [hvalue] at hunpack
  exact hunpack

theorem Counted.add_one (h : Counted x) : Counted (x + 1) := by
  obtain ⟨v, hx, hone, hle⟩ := h
  have hpos : 0 < v := one_pos.trans_le hone
  rcases hle.eq_or_lt with rfl | hlt
  · -- The tie between the two neighbours of the sum goes to the even one, which is no progress.
    have hstays : x + 1 = 9007199254740992 := by
      rw [hx.eq represents_two_pow_53 hpos]
      rfl
    rw [hstays]
    exact ⟨2 ^ 53, represents_two_pow_53, hone, le_rfl⟩
  · have hroom : v + 1 ≤ 2 ^ 53 := by
      obtain ⟨m, e, -, -, hcanonical, -, rfl⟩ := hx.exists_canonical hpos
      have hlast : magnitude m e ≤ magnitude (2 ^ 53 - 1) 0 := by
        apply hcanonical.le_pred (by decide)
        refine hlt.trans_eq ?_
        unfold magnitude
        norm_num
      unfold magnitude at hlast ⊢
      norm_num at hlast ⊢
      linarith
    obtain ⟨u, hu, hbeside⟩ :=
      represents_add hx represents_one hpos one_pos represents_two_pow_53 hroom
    exact ⟨u, hu, (hbeside represents_one).1 (by linarith),
      (hbeside represents_two_pow_53).2 hroom⟩

/-- Keeping all of a number that is at least one. -/
theorem Counted.max_one_mul (h : Counted x) : Scalar.max (1 * x) 1 = x := by
  obtain ⟨v, hx, hone, -⟩ := h
  have hpos : 0 < v := one_pos.trans_le hone
  have hkept : 1 * x = x := (represents_one_mul hx hpos).eq hx hpos
  rw [hkept]
  rcases hx.max_cases represents_one with ⟨hmax, -⟩ | ⟨-, hlt⟩
  · exact hmax
  · exact absurd hone (not_le.mpr hlt)

end PathSelection
