import PathSelection.Proofs.Binary64.Values

namespace PathSelection

open Float.Model Float.Model.UnpackedFloat

section Fields

variable {x : Float} {sign : Sign}

theorem toNat_unpackMantissa (b : BitVec Format.binary64.numBits) :
    (unpackMantissa b).toNat = b.toNat % 2 ^ 52 := by
  rw [unpackMantissa_def, BitVec.extractLsb'_toNat, Nat.shiftRight_zero]

/-- The exponent and the mantissa of a number as they are stored, one after the other. -/
def storedMagnitude (x : Float) : ℤ :=
  (unpackExponent (floatBits x)).toNat * 2 ^ 52 + (unpackMantissa (floatBits x)).toNat

/-- A negative number counts down from the one before zero. -/
def signedPlace : Sign → ℤ → ℤ
  | .positive, place => place
  | .negative, place => -1 - place

theorem floatRank_eq_signedPlace (x : Float) :
    floatRank x = signedPlace (Sign.ofBitVec (unpackSign (floatBits x))) (storedMagnitude x) := by
  have hexponent := toNat_unpackExponent (floatBits x)
  have hmantissa := toNat_unpackMantissa (floatBits x)
  have hsign := toNat_unpackSign (floatBits x)
  have hlt : (floatBits x).toNat < 2 ^ 64 := (floatBits x).isLt
  have hbits : (floatBits x).toNat = x.toBits.toNat := rfl
  unfold floatRank storedMagnitude Sign.ofBitVec
  dsimp only
  rw [← hbits]
  by_cases hzero : unpackSign (floatBits x) = 0#1
  · have hfield : (unpackSign (floatBits x)).toNat = 0 := congrArg BitVec.toNat hzero
    rw [if_pos hzero, if_pos (by omega)]
    rw [signedPlace]
    omega
  · have hfield : (unpackSign (floatBits x)).toNat ≠ 0 := BitVec.toNat_ne.mp hzero
    rw [if_neg hzero, if_neg (by omega)]
    rw [signedPlace]
    omega

/-- A zero has no bits but the one for its sign. -/
theorem fields_of_unpack_zero (h : x.toModel.unpack = .zero sign) :
    Sign.ofBitVec (unpackSign (floatBits x)) = sign ∧ storedMagnitude x = 0 := by
  unfold Float.Model.unpack UnpackedFloat.unpack at h
  dsimp only at h
  split at h
  · split at h <;> cases h
  · split at h
    · next hexponent =>
      split at h
      · next hmantissa =>
        injection h with hsign
        refine ⟨hsign, ?_⟩
        unfold storedMagnitude
        have he : (unpackExponent (floatBits x)).toNat = 0 := congrArg BitVec.toNat hexponent
        have hm : (unpackMantissa (floatBits x)).toNat = 0 := congrArg BitVec.toNat hmantissa
        rw [he, hm]
        rfl
      · cases h
    · cases h

end Fields

section Places

variable {m m' : ℕ} {e e' : ℤ}

/-- The place of a magnitude among all those of the format. -/
def magnitudePlace (m : ℕ) (e : ℤ) : ℤ := (e + 1074) * 2 ^ 52 + m

theorem magnitudePlace_nonneg (h : Canonical m e) : 0 ≤ magnitudePlace m e := by
  have hmin := h.exponent_ge
  unfold magnitudePlace
  omega

theorem magnitudePlace_lt (h : Canonical m e) (h' : Canonical m' e')
    (hlt : magnitude m e < magnitude m' e') : magnitudePlace m e < magnitudePlace m' e' := by
  unfold magnitudePlace
  rcases lt_trichotomy e e' with hbelow | rfl | habove
  · have hfull : 2 ^ 52 ≤ m' := by
      have hmin := h.exponent_ge
      rcases h'.full with hfull | hsmallest <;> omega
    have hm := h.lt
    omega
  · have hm := (magnitude_lt_iff e).mp hlt
    omega
  · exact absurd hlt (magnitude_lt_of_exponent_lt h' h habove).not_gt

theorem magnitude_le_of_place_le (h : Canonical m e) (h' : Canonical m' e')
    (hle : magnitudePlace m e ≤ magnitudePlace m' e') : magnitude m e ≤ magnitude m' e' := by
  by_contra hlt
  exact (magnitudePlace_lt h' h (not_le.mp hlt)).not_ge hle

end Places

section Represents

variable {x y : Float} {v w : ℚ}

/-- A sign applied to a magnitude. -/
def signedValue : Sign → ℚ → ℚ
  | .positive, v => v
  | .negative, v => -v

/-- The value and the rank of a finite number have the same sign and come from the same fields. -/
theorem Represents.exists_place (hx : Represents x v) :
    ∃ sign m e, Canonical m e ∧ v = signedValue sign (magnitude m e) ∧
      floatRank x = signedPlace sign (magnitudePlace m e) := by
  rw [floatRank_eq_signedPlace]
  unfold Represents at hx
  cases hunpack : x.toModel.unpack with
  | zero sign =>
    rw [hunpack] at hx
    obtain rfl := Option.some.inj hx
    obtain ⟨hsign, hstored⟩ := fields_of_unpack_zero hunpack
    refine ⟨sign, 0, -1074, ⟨by decide, le_rfl, Or.inr rfl⟩, ?_, ?_⟩
    · cases sign <;> simp [signedValue, magnitude]
    · rw [hsign, hstored]
      rfl
  | finite sign m e hm =>
    rw [hunpack] at hx
    obtain ⟨hsign, hfields⟩ := fields_of_unpack hunpack
    refine ⟨sign, m, e, (canonical_of_unpack hunpack).1, ?_, ?_⟩
    · cases sign <;> exact (Option.some.inj hx).symm
    · rw [hsign]
      congr 1
      unfold storedMagnitude magnitudePlace
      obtain ⟨hexponent, hmantissa, rfl⟩ | ⟨-, -, hmantissa, rfl⟩ := hfields <;> omega
  | infinity | notANumber =>
    rw [hunpack] at hx
    exact absurd hx (Option.some_ne_none v).symm

theorem Represents.le_of_totalLe (hx : Represents x v) (hy : Represents y w)
    (hle : Scalar.totalLe x y = true) : v ≤ w := by
  obtain ⟨sign, m, e, h, rfl, hrank⟩ := hx.exists_place
  obtain ⟨sign', m', e', h', rfl, hrank'⟩ := hy.exists_place
  have hplace :
      signedPlace sign (magnitudePlace m e) ≤ signedPlace sign' (magnitudePlace m' e') := by
    rw [← hrank, ← hrank']
    exact decide_eq_true_iff.mp hle
  have hnonneg := magnitudePlace_nonneg h
  have hnonneg' := magnitudePlace_nonneg h'
  have hvalue : 0 ≤ magnitude m e := mul_nonneg m.cast_nonneg (zpow_nonneg zero_le_two e)
  have hvalue' : 0 ≤ magnitude m' e' := mul_nonneg m'.cast_nonneg (zpow_nonneg zero_le_two e')
  cases sign with
  | positive =>
    cases sign' with
    | positive => exact magnitude_le_of_place_le h h' hplace
    | negative =>
      have hbelow : magnitudePlace m e ≤ -1 - magnitudePlace m' e' := hplace
      omega
  | negative =>
    cases sign' with
    | positive => exact (neg_nonpos.mpr hvalue).trans hvalue'
    | negative =>
      have hswapped : -1 - magnitudePlace m e ≤ -1 - magnitudePlace m' e' := hplace
      exact neg_le_neg (magnitude_le_of_place_le h' h (by omega))

end Represents

end PathSelection
