import Mathlib
import PathSelection.Scalar

namespace PathSelection

open Float.Model Float.Model.UnpackedFloat

/-- The bits of a number, in their format. -/
def floatBits (x : Float) : BitVec Format.binary64.numBits := x.toBits.toBitVec

theorem floatRank_infinity : floatRank (1 / 0) = 0x7ff0000000000000 := by decide

theorem toNat_unpackExponent (b : BitVec Format.binary64.numBits) :
    (unpackExponent b).toNat = b.toNat / 2 ^ 52 % 2 ^ 11 := by
  rw [unpackExponent_def, BitVec.extractLsb'_toNat, Nat.shiftRight_eq_div_pow]

theorem toNat_unpackSign (b : BitVec Format.binary64.numBits) :
    (unpackSign b).toNat = b.toNat / 2 ^ 63 % 2 := by
  rw [unpackSign_def, BitVec.extractLsb'_toNat, Nat.shiftRight_eq_div_pow]
  rfl

/-- Infinity and the values that are no number are those with the largest exponent. -/
theorem floatRank_lt_infinity {x : Float}
    (h : unpackExponent (floatBits x) ≠ -1#_) :
    floatRank x < floatRank (1 / 0) := by
  have hfield : x.toBits.toNat / 2 ^ 52 % 2 ^ 11 ≠ 2047 := by
    intro heq
    apply h
    apply BitVec.eq_of_toNat_eq
    exact (toNat_unpackExponent (floatBits x)).trans heq
  rw [floatRank_infinity]
  unfold floatRank
  dsimp only
  split <;> omega

/-- Nothing ranks at least as high as infinity but itself and the values that are no number. -/
theorem unpack_of_infinity_le {x : Float} (h : floatRank (1 / 0) ≤ floatRank x) :
    x.toModel.unpack = .infinity .positive ∨ x.toModel.unpack = .notANumber := by
  have hexponent : unpackExponent (floatBits x) = -1#_ := by
    by_contra hne
    exact Int.not_lt.mpr h (floatRank_lt_infinity hne)
  have hsign : unpackSign (floatBits x) = 0#1 := by
    apply BitVec.eq_of_toNat_eq
    have hbits : (floatBits x).toNat < 2 ^ 63 := by
      change x.toBits.toNat < 2 ^ 63
      rw [floatRank_infinity] at h
      unfold floatRank at h
      dsimp only at h
      split at h <;> omega
    rw [toNat_unpackSign, Nat.div_eq_of_lt hbits]
    rfl
  change UnpackedFloat.unpack Format.binary64 (floatBits x) = _ ∨
    UnpackedFloat.unpack Format.binary64 (floatBits x) = _
  unfold UnpackedFloat.unpack
  dsimp only
  rw [if_pos hexponent, hsign]
  split
  · exact Or.inl rfl
  · exact Or.inr rfl

/-- The fields of the bits of a finite number that is not zero: a subnormal number has only the bits
of the mantissa that are stored, a normal one has one more. -/
theorem fields_of_unpack {x : Float} {sign : Sign} {m : Nat} {e : Int} {hm : 0 < m}
    (h : x.toModel.unpack = .finite sign m e hm) :
    let exponent := (unpackExponent (floatBits x)).toNat
    let mantissa := (unpackMantissa (floatBits x)).toNat
    Sign.ofBitVec (unpackSign (floatBits x)) = sign ∧
      (exponent = 0 ∧ m = mantissa ∧ e = -1074 ∨
        0 < exponent ∧ exponent < 2047 ∧ m = 2 ^ 52 + mantissa ∧ e = exponent - 1075) := by
  let field : BitVec 11 := unpackExponent (floatBits x)
  have hbits : field.toNat < 2 ^ 11 := field.isLt
  unfold Float.Model.unpack UnpackedFloat.unpack at h
  dsimp only at h
  split at h
  · split at h <;> cases h
  · next hfinite =>
    split at h
    · next hzero =>
      split at h
      · cases h
      · injection h with hsign hmantissa hexponent
        rw [hzero] at hexponent
        exact ⟨hsign, Or.inl ⟨congrArg BitVec.toNat hzero, hmantissa.symm, hexponent.symm⟩⟩
    · next hnonzero =>
      injection h with hsign hmantissa hexponent
      have hlow : field.toNat ≠ 0 := BitVec.toNat_ne.mp hnonzero
      have hhigh : field.toNat ≠ 2047 := BitVec.toNat_ne.mp hfinite
      refine ⟨hsign, Or.inr ⟨Nat.pos_of_ne_zero hlow, ?_, ?_, hexponent.symm⟩⟩
      · change field.toNat < 2047
        omega
      · rw [← hmantissa, BitVec.toNat_append, ← Nat.shiftLeft_add_eq_or_of_lt (BitVec.isLt _)]
        rfl

theorem mantissa_lt_of_unpack {x : Float} {sign : Sign} {m : Nat} {e : Int} {hm : 0 < m}
    (h : x.toModel.unpack = .finite sign m e hm) : m < 2 ^ 53 := by
  have hstored : (unpackMantissa (floatBits x)).toNat < 2 ^ 52 := BitVec.isLt _
  obtain ⟨-, ⟨-, rfl, -⟩ | ⟨-, -, rfl, -⟩⟩ := fields_of_unpack h <;> omega

section Rounding

/-- Zero, or a finite number whose exponent is not above a limit. -/
def Bounded (limit : Int) : UnpackedFloat → Prop
  | .zero _ => True
  | .finite _ _ e _ => e ≤ limit
  | .infinity _ | .notANumber => False

theorem floatRank_pack_lt {f : UnpackedFloat} (h : Bounded 971 f) :
    floatRank (.ofModel (Float.Model.pack f)) < floatRank (1 / 0) := by
  apply floatRank_lt_infinity
  change unpackExponent (UnpackedFloat.pack Format.binary64 f) ≠ -1#_
  cases f with
  | zero sign =>
    unfold UnpackedFloat.pack packedZero
    rw [unpackExponent_packComponents]
    decide
  | finite sign m e hm =>
    have he : e ≤ 971 := h
    have hbias : (Format.binary64.exponentBias : Int) = 1023 := rfl
    unfold UnpackedFloat.pack
    dsimp only
    rw [hbias]
    split
    · omega
    · -- The field of a normal number is its biased exponent, that of a subnormal one is zero.
      split
      · rw [unpackExponent_packComponents]
        intro heq
        have hnat := congrArg BitVec.toNat heq
        rw [BitVec.toNat_ofNat] at hnat
        change (e + 1023 + 52).toNat % 2 ^ 11 = 2047 at hnat
        omega
      · rw [unpackExponent_packComponents]
        decide
  | infinity sign => exact absurd h id
  | notANumber => exact absurd h id

theorem mantissa_shiftRight_le (em : ExtendedMantissa) (n : Nat) :
    (em >>> n).mantissa ≤ em.mantissa := by
  change (n.repeat ExtendedMantissa.shiftRightOne em).mantissa ≤ em.mantissa
  induction n with
  | zero => exact Nat.le_refl _
  | succ n ih => exact Nat.le_trans (Nat.div_le_self _ 2) ih

theorem roundedMantissa_le (em : ExtendedMantissa) : em.roundedMantissa ≤ em.mantissa + 1 := by
  unfold ExtendedMantissa.roundedMantissa Accuracy.roundToNearestEven
  split <;> omega

theorem log2_le_of_lt {n k : Nat} (h : n < 2 ^ k) : n.log2 ≤ k := by
  by_cases hzero : n = 0
  · rw [hzero]
    exact Nat.zero_le k
  · exact Nat.le_of_lt ((Nat.log2_lt hzero).mpr h)

theorem shiftToTargetExponent_le (m : Nat) (e : Int) (accuracy : Accuracy) :
    (shiftToTargetExponent Format.binary64 m e accuracy).1.mantissa ≤ m ∧
      (shiftToTargetExponent Format.binary64 m e accuracy).2 =
        max e (max (m.log2 + 1 + e - 53) (-1074)) := by
  unfold shiftToTargetExponent shiftToExponent
  dsimp only
  constructor
  · refine Nat.le_trans (mantissa_shiftRight_le _ _) (Nat.le_of_eq ?_)
    unfold ExtendedMantissa.ofMantissaAndAccuracy
    split <;> rfl
  · change e + ((max (m.log2 + 1 + e - 53) (-1074) - e).toNat : Int) = _
    omega

theorem roundWithAccuracy_bounded (sign : Sign) {m : Nat} {e : Int} (accuracy : Accuracy)
    (hm : m < 2 ^ 200) (he : e ≤ 200) :
    Bounded 971 (roundWithAccuracy Format.binary64 sign m e accuracy) := by
  let em := (shiftToTargetExponent Format.binary64 m e accuracy).1
  let e₁ := (shiftToTargetExponent Format.binary64 m e accuracy).2
  have hmantissa₁ : em.mantissa ≤ m := (shiftToTargetExponent_le m e accuracy).1
  have hexponent₁ : e₁ = max e (max (m.log2 + 1 + e - 53) (-1074)) :=
    (shiftToTargetExponent_le m e accuracy).2
  -- Rounding can carry into one more bit; the second shift takes that bit away.
  have hrounded : em.roundedMantissa < 2 ^ 201 := by
    have hle := roundedMantissa_le em
    omega
  have hexponent₂ := (shiftToTargetExponent_le em.roundedMantissa e₁ .exact).2
  have hlog₁ := log2_le_of_lt hm
  have hlog₂ := log2_le_of_lt hrounded
  unfold roundWithAccuracy
  dsimp only
  split
  · trivial
  · change (shiftToTargetExponent Format.binary64 em.roundedMantissa e₁ .exact).2 ≤ 971
    omega

theorem round_bounded (sign : Sign) {m : Nat} {e : Int} (hm : m < 2 ^ 100) (hlow : -100 ≤ e)
    (hhigh : e ≤ 100) : Bounded 971 (UnpackedFloat.round Format.binary64 sign m e) := by
  have hlog := log2_le_of_lt hm
  unfold UnpackedFloat.round decreaseExponent
  dsimp only
  apply roundWithAccuracy_bounded
  · -- A mantissa with few bits is first filled up to those of the format.
    rw [Nat.shiftLeft_eq]
    have hshift : (e - max (m.log2 + 1 + e - 53) (-1074)).toNat ≤ 52 := by omega
    calc m * 2 ^ (e - max (m.log2 + 1 + e - 53) (-1074)).toNat
        ≤ m * 2 ^ 52 := Nat.mul_le_mul_left m (Nat.pow_le_pow_right (by decide) hshift)
      _ < 2 ^ 200 := by omega
  · omega

/-- The sum of two positive numbers that are below two and not too small. -/
theorem add_bounded {m₁ m₂ : Nat} {e₁ e₂ : Int} (hm₁ : 0 < m₁) (hm₂ : 0 < m₂) (hlt₁ : m₁ < 2 ^ 53)
    (hlt₂ : m₂ < 2 ^ 53) (he₁ : -79 ≤ e₁ ∧ e₁ ≤ -52) (he₂ : -79 ≤ e₂ ∧ e₂ ≤ -52) :
    Bounded 971 (UnpackedFloat.add Format.binary64 (.finite .positive m₁ e₁ hm₁)
      (.finite .positive m₂ e₂ hm₂)) := by
  let e := min e₁ e₂
  -- Both mantissas are brought to the smaller exponent.
  have hshift {m : Nat} {e' : Int} (hpos : 0 < m) (hlt : m < 2 ^ 53) (he : e' ≤ -52) :
      0 < m <<< (e' - e).toNat ∧ m <<< (e' - e).toNat < 2 ^ 80 := by
    rw [Nat.shiftLeft_eq]
    refine ⟨Nat.mul_pos hpos (Nat.two_pow_pos _), ?_⟩
    calc m * 2 ^ (e' - e).toNat
        ≤ m * 2 ^ 27 := Nat.mul_le_mul_left m (Nat.pow_le_pow_right (by decide) (by omega))
      _ < 2 ^ 80 := by omega
  obtain ⟨hpos₁, hlt₁⟩ := hshift hm₁ hlt₁ he₁.2
  obtain ⟨hpos₂, hlt₂⟩ := hshift hm₂ hlt₂ he₂.2
  change Bounded 971 (UnpackedFloat.normalize Format.binary64
    ((m₁ <<< (e₁ - e).toNat : Nat) + (m₂ <<< (e₂ - e).toNat : Nat)) e .positive)
  unfold UnpackedFloat.normalize
  have hpositive : compare (((m₁ <<< (e₁ - e).toNat : Nat) : Int) + (m₂ <<< (e₂ - e).toNat : Nat))
      0 = .gt := Int.compare_eq_gt.mpr (by omega)
  rw [hpositive]
  apply round_bounded
  · omega
  · omega
  · omega

end Rounding

section Comparison

variable {x y : Float}

theorem float_lt_iff :
    x < y ↔ (x.toModel.unpack.compare y.toModel.unpack == some .lt) = true :=
  decide_eq_true_iff

theorem float_le_iff :
    x ≤ y ↔ (x.toModel.unpack.compare y.toModel.unpack).any (·.isLE) = true :=
  decide_eq_true_iff

/-- A value that equals itself and is not above some finite number. -/
theorem floatRank_lt_of_not_lt (hself : (x == x) = true) (hfinite : y.isFinite = true)
    (h : ¬ y < x) : floatRank x < floatRank (1 / 0) := by
  by_contra hle
  change (x.toModel.unpack.compare x.toModel.unpack == some .eq) = true at hself
  change y.toModel.unpack.isFinite = true at hfinite
  rw [float_lt_iff] at h
  rcases unpack_of_infinity_le (Int.not_lt.mp hle) with hx | hx
  · rw [hx] at h
    cases hy : y.toModel.unpack with
    | zero sign => exact h (by rw [hy]; rfl)
    | finite sign m e hm => exact h (by rw [hy]; cases sign <;> rfl)
    | infinity sign => exact absurd hfinite (by rw [hy]; exact Bool.false_ne_true)
    | notANumber => exact absurd hfinite (by rw [hy]; exact Bool.false_ne_true)
  · rw [hx] at hself
    exact absurd hself (by decide)

/-- A finite number that is not below zero is at least zero, whatever the sign of a zero is. -/
theorem float_not_lt_zero (hx : x.isFinite = true) : ¬ x < 0 ↔ 0 ≤ x := by
  change x.toModel.unpack.isFinite = true at hx
  have hzero : (0 : Float).toModel.unpack = .zero .positive := rfl
  rw [float_lt_iff, float_le_iff, hzero]
  cases h : x.toModel.unpack with
  | zero sign => simp [UnpackedFloat.compare]
  | finite sign m e hm => cases sign <;> simp [UnpackedFloat.compare]
  | infinity sign => exact absurd hx (by rw [h]; exact Bool.false_ne_true)
  | notANumber => exact absurd hx (by rw [h]; exact Bool.false_ne_true)

end Comparison

end PathSelection
