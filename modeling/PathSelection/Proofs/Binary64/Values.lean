import Mathlib
import PathSelection.Proofs.Binary64

namespace PathSelection

open Float.Model Float.Model.UnpackedFloat

/-- The number that a mantissa and an exponent stand for. -/
def magnitude (m : ℕ) (e : ℤ) : ℚ := m * 2 ^ e

/-- The form in which the format writes each positive number in one way only: all bits of the
mantissa are used, unless the exponent is the smallest one. -/
structure Canonical (m : ℕ) (e : ℤ) : Prop where
  lt : m < 2 ^ 53
  exponent_ge : -1074 ≤ e
  full : 2 ^ 52 ≤ m ∨ e = -1074

/-- What an unpacked number stands for, if it is finite. -/
def value? : UnpackedFloat → Option ℚ
  | .zero _ => some 0
  | .finite .positive m e _ => some (magnitude m e)
  | .finite .negative m e _ => some (-magnitude m e)
  | .infinity _ => none
  | .notANumber => none

/-- The value of a finite number. -/
def Represents (x : Float) (v : ℚ) : Prop := value? x.toModel.unpack = some v

section Order

variable {m m' : ℕ} {e e' : ℤ}

theorem magnitude_pos (hm : 0 < m) (e : ℤ) : 0 < magnitude m e :=
  mul_pos (Nat.cast_pos.mpr hm) (zpow_pos two_pos e)

theorem magnitude_le_iff (e : ℤ) : magnitude m e ≤ magnitude m' e ↔ m ≤ m' := by
  unfold magnitude
  rw [mul_le_mul_iff_of_pos_right (zpow_pos two_pos e), Nat.cast_le]

theorem magnitude_lt_iff (e : ℤ) : magnitude m e < magnitude m' e ↔ m < m' := by
  rw [← not_le, ← not_le, magnitude_le_iff]

theorem magnitude_add (m : ℕ) (e : ℤ) (k : ℕ) : magnitude m (e + k) = magnitude (m * 2 ^ k) e := by
  unfold magnitude
  rw [zpow_add₀ two_ne_zero, zpow_natCast]
  push_cast
  ring

theorem magnitude_add_mantissa (m m' : ℕ) (e : ℤ) :
    magnitude (m + m') e = magnitude m e + magnitude m' e := by
  unfold magnitude
  rw [Nat.cast_add, add_mul]

/-- Of two canonical numbers the one with the larger exponent is larger. -/
theorem magnitude_lt_of_exponent_lt (h : Canonical m e) (h' : Canonical m' e') (hlt : e < e') :
    magnitude m e < magnitude m' e' := by
  have hfull : 2 ^ 52 ≤ m' := by
    have hmin := h.exponent_ge
    rcases h'.full with hfull | hsmallest <;> omega
  obtain ⟨k, rfl⟩ : ∃ k : ℕ, e' = e + (k + 1 : ℕ) := ⟨(e' - e - 1).toNat, by omega⟩
  rw [magnitude_add, magnitude_lt_iff]
  calc m < 2 ^ 52 * 2 := h.lt
    _ ≤ m' * 2 ^ (k + 1) := Nat.mul_le_mul hfull (Nat.le_self_pow (Nat.succ_ne_zero k) 2)

/-- There is no canonical number between two neighbours. -/
theorem Canonical.succ_le (h : Canonical m e) (h' : Canonical m' e') (hsucc : Canonical (m' + 1) e')
    (hlt : magnitude m' e' < magnitude m e) : magnitude (m' + 1) e' ≤ magnitude m e := by
  rcases lt_trichotomy e e' with hbelow | rfl | habove
  · exact absurd hlt (magnitude_lt_of_exponent_lt h h' hbelow).not_gt
  · exact (magnitude_le_iff e).mpr ((magnitude_lt_iff e).mp hlt)
  · exact (magnitude_lt_of_exponent_lt hsucc h habove).le

/-- Below a power of two the largest canonical number has only ones in its mantissa. -/
theorem Canonical.le_pred (h : Canonical m e) (he' : -1074 ≤ e')
    (hlt : magnitude m e < magnitude (2 ^ 52) (e' + 1)) :
    magnitude m e ≤ magnitude (2 ^ 53 - 1) e' := by
  have hpower : Canonical (2 ^ 52) (e' + 1) := ⟨by decide, by omega, Or.inl le_rfl⟩
  rcases lt_trichotomy e e' with hbelow | rfl | habove
  · exact (magnitude_lt_of_exponent_lt h ⟨by decide, he', Or.inl (by decide)⟩ hbelow).le
  · exact (magnitude_le_iff e).mpr (Nat.le_sub_one_of_lt h.lt)
  · rcases (show e' + 1 ≤ e from habove).eq_or_lt with rfl | hgt
    · have hlow := (magnitude_lt_iff (e' + 1)).mp hlt
      have hfull := h.full
      omega
    · exact absurd hlt (magnitude_lt_of_exponent_lt hpower h hgt).not_gt

theorem compare_magnitude (h : Canonical m e) (h' : Canonical m' e') :
    (compare e e').then (compare m m') = compare (magnitude m e) (magnitude m' e') := by
  rcases lt_trichotomy e e' with hlt | rfl | hgt
  · rw [compare_lt_iff_lt.mpr hlt, compare_lt_iff_lt.mpr (magnitude_lt_of_exponent_lt h h' hlt)]
    rfl
  · rw [compare_eq_iff_eq.mpr rfl]
    rcases lt_trichotomy m m' with hlt | rfl | hgt
    · rw [compare_lt_iff_lt.mpr hlt, compare_lt_iff_lt.mpr ((magnitude_lt_iff e).mpr hlt)]
      rfl
    · rw [compare_eq_iff_eq.mpr rfl, compare_eq_iff_eq.mpr rfl]
      rfl
    · rw [compare_gt_iff_gt.mpr hgt, compare_gt_iff_gt.mpr ((magnitude_lt_iff e).mpr hgt)]
      rfl
  · rw [compare_gt_iff_gt.mpr hgt, compare_gt_iff_gt.mpr (magnitude_lt_of_exponent_lt h' h hgt)]
    rfl

end Order

section Packing

variable {m : ℕ} {e : ℤ} {sign : Sign} {hm : 0 < m}

theorem canonical_of_unpack {x : Float} (h : x.toModel.unpack = .finite sign m e hm) :
    Canonical m e ∧ e ≤ 971 := by
  have hlt := mantissa_lt_of_unpack h
  obtain ⟨-, ⟨-, -, hexponent⟩ | ⟨hlow, hhigh, hmantissa, hexponent⟩⟩ := fields_of_unpack h
  · exact ⟨⟨hlt, hexponent.ge, Or.inr hexponent⟩, by omega⟩
  · -- The implicit bit fills the mantissa.
    exact ⟨⟨hlt, by omega, Or.inl (by omega)⟩, by omega⟩

theorem finite_congr {m' : ℕ} {e' : ℤ} {hm' : 0 < m'} (hmantissa : m = m') (hexponent : e = e') :
    UnpackedFloat.finite sign m e hm = .finite sign m' e' hm' := by
  subst hmantissa hexponent
  rfl

theorem unpack_normal {exponent : BitVec 11} (mantissa : BitVec 52) (hones : exponent ≠ -1#11)
    (hzeros : exponent ≠ 0#11) :
    UnpackedFloat.unpack Format.binary64 (packComponents Format.binary64 sign exponent mantissa) =
      .finite sign (2 ^ 52 + mantissa.toNat) (exponent.toNat - 1075)
        (Nat.add_pos_left (Nat.two_pow_pos 52) _) := by
  have hmantissa : (1#1 ++ mantissa).toNat = 2 ^ 52 + mantissa.toNat := by
    rw [BitVec.toNat_append, ← Nat.shiftLeft_add_eq_or_of_lt mantissa.isLt]
    rfl
  unfold UnpackedFloat.unpack
  simp only [unpackExponent_packComponents, unpackMantissa_packComponents,
    unpackSign_packComponents, Sign.ofBitVec_toBitVec, if_neg hones, if_neg hzeros]
  exact finite_congr hmantissa rfl

theorem unpack_subnormal {mantissa : BitVec 52} (hnonzero : mantissa ≠ 0#52) :
    UnpackedFloat.unpack Format.binary64 (packComponents Format.binary64 sign 0#11 mantissa) =
      .finite sign mantissa.toNat (-1074)
        (Nat.pos_of_ne_zero (BitVec.toNat_ne.mp hnonzero)) := by
  unfold UnpackedFloat.unpack
  simp only [unpackExponent_packComponents, unpackMantissa_packComponents,
    unpackSign_packComponents, Sign.ofBitVec_toBitVec]
  rw [if_neg (by decide), if_pos trivial, dif_neg hnonzero]
  exact finite_congr rfl rfl

/-- A canonical number that is not too large survives being packed. -/
theorem unpack_pack (h : Canonical m e) (he : e ≤ 971) :
    (Float.ofModel (Float.Model.pack (.finite sign m e hm))).toModel.unpack =
      .finite sign m e hm := by
  have hmin := h.exponent_ge
  have hlt := h.lt
  change UnpackedFloat.unpack Format.binary64
    (UnpackedFloat.pack Format.binary64 (.finite sign m e hm)) = _
  have hpack : UnpackedFloat.pack Format.binary64 (.finite sign m e hm) =
      if m.log2 + 1 = 53 then
        packComponents Format.binary64 sign (BitVec.ofNat 11 (e + 1075).toNat) (BitVec.ofNat 52 m)
      else packComponents Format.binary64 sign 0#11 (BitVec.ofNat 52 m) := by
    have hbiased : e + (Format.binary64.exponentBias : ℤ) + (52 : ℕ) = e + 1075 := by
      change e + 1023 + 52 = e + 1075
      omega
    unfold UnpackedFloat.pack
    dsimp only
    rw [hbiased, if_neg (by omega)]
    rfl
  rw [hpack]
  by_cases hfull : 2 ^ 52 ≤ m
  · have hlog2 : m.log2 = 52 := (Nat.log2_eq_iff (Nat.ne_of_gt hm)).mpr ⟨hfull, hlt⟩
    have hlog : m.log2 + 1 = 53 := by rw [hlog2]
    have hexponent : (BitVec.ofNat 11 (e + 1075).toNat).toNat = (e + 1075).toNat := by
      rw [BitVec.toNat_ofNat]
      exact Nat.mod_eq_of_lt (by omega)
    have hmantissa : (BitVec.ofNat 52 m).toNat = m - 2 ^ 52 := by
      rw [BitVec.toNat_ofNat]
      omega
    have hones : BitVec.ofNat 11 (e + 1075).toNat ≠ -1#11 := by
      apply BitVec.toNat_ne.mpr
      rw [hexponent]
      change _ ≠ 2047
      omega
    have hzeros : BitVec.ofNat 11 (e + 1075).toNat ≠ 0#11 := by
      apply BitVec.toNat_ne.mpr
      rw [hexponent]
      change _ ≠ 0
      omega
    rw [if_pos hlog, unpack_normal _ hones hzeros]
    apply finite_congr
    · rw [hmantissa]
      omega
    · rw [hexponent]
      omega
  · have hlow : m < 2 ^ 52 := Nat.not_le.mp hfull
    have hsmallest : e = -1074 := h.full.resolve_left hfull
    have hlog : m.log2 + 1 ≠ 53 := by
      have hlog2 := (Nat.log2_lt (Nat.ne_of_gt hm)).mpr hlow
      omega
    have hmantissa : (BitVec.ofNat 52 m).toNat = m := by
      rw [BitVec.toNat_ofNat]
      exact Nat.mod_eq_of_lt hlow
    have hnonzero : BitVec.ofNat 52 m ≠ 0#52 := by
      apply BitVec.toNat_ne.mpr
      rw [hmantissa]
      exact Nat.ne_of_gt hm
    rw [if_neg hlog, unpack_subnormal hnonzero]
    exact finite_congr hmantissa hsmallest.symm

/-- The fields of a number make up its bits. -/
theorem packComponents_unpack (b : BitVec Format.binary64.numBits) :
    packComponents Format.binary64 (Sign.ofBitVec (unpackSign b)) (unpackExponent b)
      (unpackMantissa b) = b := by
  have hsign : ∀ v : BitVec 1, (Sign.ofBitVec v).toBitVec = v := by decide
  unfold packComponents
  rw [hsign]
  unfold unpackSign unpackExponent unpackMantissa BitVec.extractLsb
  ext i hi
  grind

/-- A finite number that is not zero is determined by what it unpacks to. -/
theorem eq_of_unpack {x y : Float} (hx : x.toModel.unpack = .finite sign m e hm)
    (hy : y.toModel.unpack = .finite sign m e hm) : x = y := by
  obtain ⟨hsign, hfields⟩ := fields_of_unpack hx
  obtain ⟨hsign', hfields'⟩ := fields_of_unpack hy
  -- The exponent tells a normal number from a subnormal one but in one case, which the mantissa
  -- decides.
  have hstored : (unpackMantissa (floatBits x)).toNat < 2 ^ 52 := BitVec.isLt _
  have hstored' : (unpackMantissa (floatBits y)).toNat < 2 ^ 52 := BitVec.isLt _
  have hexponent : unpackExponent (floatBits x) = unpackExponent (floatBits y) :=
    BitVec.eq_of_toNat_eq (by omega)
  have hmantissa : unpackMantissa (floatBits x) = unpackMantissa (floatBits y) :=
    BitVec.eq_of_toNat_eq (by omega)
  have hbits : floatBits x = floatBits y := by
    rw [← packComponents_unpack (floatBits x), ← packComponents_unpack (floatBits y), hsign,
      hsign', hexponent, hmantissa]
  obtain ⟨⟨bits, valid⟩⟩ := x
  obtain ⟨⟨bits', valid'⟩⟩ := y
  obtain rfl : bits = bits' := UInt64.toBitVec_inj.mp hbits
  rfl

end Packing

section Represents

variable {x y a : Float} {v w : ℚ}

theorem represents_of_unpack {m : ℕ} {e : ℤ} {hm : 0 < m}
    (h : x.toModel.unpack = .finite .positive m e hm) : Represents x (magnitude m e) := by
  unfold Represents
  rw [h]
  rfl

/-- A finite number is a zero of either sign, or canonical with a sign. -/
inductive Shape : UnpackedFloat → ℚ → Prop
  | zero (sign : Sign) : Shape (.zero sign) 0
  | positive {m : ℕ} {e : ℤ} (hm : 0 < m) (h : Canonical m e) :
      Shape (.finite .positive m e hm) (magnitude m e)
  | negative {m : ℕ} {e : ℤ} (hm : 0 < m) (h : Canonical m e) :
      Shape (.finite .negative m e hm) (-magnitude m e)

theorem Represents.shape (hx : Represents x v) : Shape x.toModel.unpack v := by
  unfold Represents at hx
  cases hunpack : x.toModel.unpack with
  | zero sign =>
    rw [hunpack] at hx
    obtain rfl := Option.some.inj hx
    exact .zero sign
  | finite sign m e hm =>
    rw [hunpack] at hx
    have hcanonical := (canonical_of_unpack hunpack).1
    cases sign with
    | positive =>
      obtain rfl := Option.some.inj hx
      exact .positive hm hcanonical
    | negative =>
      obtain rfl := Option.some.inj hx
      exact .negative hm hcanonical
  | infinity | notANumber =>
    rw [hunpack] at hx
    exact absurd hx (Option.some_ne_none v).symm

theorem Represents.exists_canonical (hx : Represents x v) (hv : 0 < v) :
    ∃ m e, ∃ hm : 0 < m, x.toModel.unpack = .finite .positive m e hm ∧ Canonical m e ∧ e ≤ 971 ∧
      v = magnitude m e := by
  generalize hunpack : x.toModel.unpack = f
  have hshape := hunpack ▸ hx.shape
  cases hshape with
  | zero => exact absurd hv (lt_irrefl 0)
  | positive hm h => exact ⟨_, _, hm, rfl, h, (canonical_of_unpack hunpack).2, rfl⟩
  | negative hm => exact absurd (neg_pos.mp hv) (magnitude_pos hm _).not_gt

theorem Represents.exists_zero (hx : Represents x 0) : ∃ sign, x.toModel.unpack = .zero sign := by
  generalize hunpack : x.toModel.unpack = f
  have hshape := hunpack ▸ hx.shape
  generalize hzero : (0 : ℚ) = v at hshape
  cases hshape with
  | zero sign => exact ⟨sign, rfl⟩
  | positive hm => exact absurd hzero (magnitude_pos hm _).ne
  | negative hm => exact absurd hzero (neg_lt_zero.mpr (magnitude_pos hm _)).ne'

theorem compare_neg (v w : ℚ) : compare (-v) (-w) = (compare v w).swap := by
  rcases lt_trichotomy v w with hlt | rfl | hgt
  · rw [compare_lt_iff_lt.mpr hlt, compare_gt_iff_gt.mpr (neg_lt_neg hlt)]
    rfl
  · rw [compare_eq_iff_eq.mpr rfl, compare_eq_iff_eq.mpr rfl]
    rfl
  · rw [compare_gt_iff_gt.mpr hgt, compare_lt_iff_lt.mpr (neg_lt_neg hgt)]
    rfl

theorem Shape.compare {f g : UnpackedFloat} (hf : Shape f v) (hg : Shape g w) :
    f.compare g = some (Ord.compare v w) := by
  have hpos {m : ℕ} (hm : 0 < m) (e : ℤ) : 0 < magnitude m e := magnitude_pos hm e
  have hneg {m : ℕ} (hm : 0 < m) (e : ℤ) : -magnitude m e < 0 := neg_lt_zero.mpr (hpos hm e)
  cases hf with
  | zero =>
    cases hg with
    | zero => exact congrArg some (compare_eq_iff_eq.mpr rfl).symm
    | positive hm => exact congrArg some (compare_lt_iff_lt.mpr (hpos hm _)).symm
    | negative hm => exact congrArg some (compare_gt_iff_gt.mpr (hneg hm _)).symm
  | positive hm h =>
    cases hg with
    | zero => exact congrArg some (compare_gt_iff_gt.mpr (hpos hm _)).symm
    | positive hm' h' => exact congrArg some (compare_magnitude h h')
    | negative hm' =>
      exact congrArg some (compare_gt_iff_gt.mpr ((hneg hm' _).trans (hpos hm _))).symm
  | negative hm h =>
    cases hg with
    | zero => exact congrArg some (compare_lt_iff_lt.mpr (hneg hm _)).symm
    | positive hm' =>
      exact congrArg some (compare_lt_iff_lt.mpr ((hneg hm _).trans (hpos hm' _))).symm
    | negative hm' h' =>
      -- Of two negative numbers the one with the larger magnitude is smaller.
      rw [compare_neg, ← compare_magnitude h h']
      rfl

theorem compare_of_represents (hx : Represents x v) (hy : Represents y w) :
    x.toModel.unpack.compare y.toModel.unpack = some (compare v w) :=
  hx.shape.compare hy.shape

theorem Represents.lt_iff (hx : Represents x v) (hy : Represents y w) : x < y ↔ v < w := by
  rw [float_lt_iff, compare_of_represents hx hy, beq_iff_eq, Option.some_inj, compare_lt_iff_lt]

theorem Represents.le_iff (hx : Represents x v) (hy : Represents y w) : x ≤ y ↔ v ≤ w := by
  rw [float_le_iff, compare_of_represents hx hy, Option.any_some, ← not_lt, ← compare_gt_iff_gt]
  cases compare v w <;> decide

theorem Represents.beq_self (hx : Represents x v) : (x == x) = true := by
  change (x.toModel.unpack.compare x.toModel.unpack == some .eq) = true
  rw [compare_of_represents hx hx, compare_eq_iff_eq.mpr rfl]
  rfl

/-- A positive number is determined by its value. -/
theorem Represents.eq (hx : Represents x v) (hy : Represents y v) (hv : 0 < v) : x = y := by
  obtain ⟨m, e, hm, hunpack, hcanonical, -, hvalue⟩ := hx.exists_canonical hv
  obtain ⟨m', e', hm', hunpack', hcanonical', -, hvalue'⟩ := hy.exists_canonical hv
  have hcompare : (compare e e').then (compare m m') = .eq := by
    rw [compare_magnitude hcanonical hcanonical', ← hvalue, ← hvalue']
    exact compare_eq_iff_eq.mpr rfl
  obtain ⟨hexponent, hmantissa⟩ := Ordering.then_eq_eq.mp hcompare
  obtain rfl := compare_eq_iff_eq.mp hexponent
  obtain rfl := compare_eq_iff_eq.mp hmantissa
  exact eq_of_unpack hunpack hunpack'

theorem Represents.max_cases (hx : Represents x v) (hy : Represents y w) :
    Scalar.max x y = x ∧ w ≤ v ∨ Scalar.max x y = y ∧ v < w := by
  unfold Scalar.max
  rw [if_pos hx.beq_self]
  split
  · next hlt => exact Or.inr ⟨rfl, (hx.lt_iff hy).mp hlt⟩
  · next hle => exact Or.inl ⟨rfl, not_lt.mp fun hlt => hle ((hx.lt_iff hy).mpr hlt)⟩

theorem Shape.compare_infinity {f : UnpackedFloat} (hf : Shape f v) :
    f.compare (.infinity .positive) = some .lt ∧ (infinity .positive).compare f = some .gt ∧
      f.compare (.infinity .negative) = some .gt ∧ (infinity .negative).compare f = some .lt := by
  cases hf <;> exact ⟨rfl, rfl, rfl, rfl⟩

theorem exists_represents_or (a : Float) :
    (∃ t, Represents a t) ∨ a.toModel.unpack = .infinity .positive ∨
      a.toModel.unpack = .infinity .negative ∨ a.toModel.unpack = .notANumber := by
  unfold Represents
  cases a.toModel.unpack with
  | zero sign => exact Or.inl ⟨0, rfl⟩
  | finite sign m e hm => cases sign <;> exact Or.inl ⟨_, rfl⟩
  | infinity sign =>
    cases sign with
    | positive => exact Or.inr (Or.inl rfl)
    | negative => exact Or.inr (Or.inr (Or.inl rfl))
  | notANumber => exact Or.inr (Or.inr (Or.inr rfl))

/-- A value between two finite numbers is finite. -/
theorem exists_represents_of_le (hx : Represents x v) (hy : Represents y w) (hlow : x ≤ a)
    (hhigh : a ≤ y) : ∃ t, Represents a t ∧ v ≤ t ∧ t ≤ w := by
  rcases exists_represents_or a with ⟨t, ht⟩ | ha | ha | ha
  · exact ⟨t, ht, (hx.le_iff ht).mp hlow, (ht.le_iff hy).mp hhigh⟩
  · rw [float_le_iff, ha, hy.shape.compare_infinity.2.1] at hhigh
    exact absurd hhigh (by decide)
  · rw [float_le_iff, ha, hx.shape.compare_infinity.2.2.1] at hlow
    exact absurd hlow (by decide)
  · rw [float_le_iff, ha] at hhigh
    exact absurd hhigh Bool.false_ne_true

/-- A value that equals itself and is not outside of two finite numbers is finite. -/
theorem exists_represents (hx : Represents x v) (hy : Represents y w) (hself : (a == a) = true)
    (hlow : ¬a < x) (hhigh : ¬y < a) : ∃ t, Represents a t ∧ v ≤ t ∧ t ≤ w := by
  rcases exists_represents_or a with ⟨t, ht⟩ | ha | ha | ha
  · exact ⟨t, ht, not_lt.mp fun h => hlow ((ht.lt_iff hx).mpr h),
      not_lt.mp fun h => hhigh ((hy.lt_iff ht).mpr h)⟩
  · rw [float_lt_iff, ha, hy.shape.compare_infinity.1] at hhigh
    exact absurd rfl hhigh
  · rw [float_lt_iff, ha, hx.shape.compare_infinity.2.2.2] at hlow
    exact absurd rfl hlow
  · change (a.toModel.unpack.compare a.toModel.unpack == some .eq) = true at hself
    rw [ha] at hself
    exact absurd hself (by decide)

end Represents

end PathSelection
