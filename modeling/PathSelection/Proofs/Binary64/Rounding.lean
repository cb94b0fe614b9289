import PathSelection.Proofs.Binary64.Values

namespace PathSelection

open Float.Model Float.Model.UnpackedFloat

section Mantissas

variable {m k : ℕ} {e : ℤ} {accuracy : Accuracy}

theorem mantissa_shiftRight (em : ExtendedMantissa) (k : ℕ) :
    (em >>> k).mantissa = em.mantissa / 2 ^ k := by
  change (k.repeat ExtendedMantissa.shiftRightOne em).mantissa = em.mantissa / 2 ^ k
  induction k with
  | zero => exact (Nat.div_one _).symm
  | succ k ih =>
    change (k.repeat ExtendedMantissa.shiftRightOne em).mantissa / 2 = _
    rw [ih, Nat.div_div_eq_div_mul, pow_succ]

/-- Nothing is lost when all bits that are shifted out are zero. -/
theorem shiftRight_exact (h : 2 ^ k ∣ m) :
    (⟨m, false, false⟩ : ExtendedMantissa) >>> k = ⟨m / 2 ^ k, false, false⟩ := by
  change k.repeat ExtendedMantissa.shiftRightOne ⟨m, false, false⟩ = _
  induction k with
  | zero => rw [pow_zero, Nat.div_one]; rfl
  | succ k ih =>
    have hdvd : 2 ^ k ∣ m := (Nat.pow_dvd_pow 2 (Nat.le_succ k)).trans h
    have heven : m / 2 ^ k % 2 = 0 := by
      obtain ⟨n, rfl⟩ := h
      rw [pow_succ, mul_assoc, Nat.mul_div_cancel_left _ (Nat.two_pow_pos k)]
      exact Nat.mul_mod_right 2 n
    change ExtendedMantissa.shiftRightOne
      (k.repeat ExtendedMantissa.shiftRightOne ⟨m, false, false⟩) = _
    rw [ih hdvd]
    unfold ExtendedMantissa.shiftRightOne
    rw [heven, Nat.div_div_eq_div_mul, pow_succ]
    rfl

theorem le_roundedMantissa (em : ExtendedMantissa) : em.mantissa ≤ em.roundedMantissa := by
  unfold ExtendedMantissa.roundedMantissa Accuracy.roundToNearestEven
  split <;> omega

end Mantissas

/-- The exponent at which a number is rounded. -/
def grid (m : ℕ) (e : ℤ) : ℤ := max (m.log2 + 1 + e - 53) (-1074)

/-- The mantissa at that exponent, rounded. -/
def rounded (m : ℕ) (e : ℤ) (accuracy : Accuracy) : ℕ :=
  (shiftToTargetExponent Format.binary64 m e accuracy).1.roundedMantissa

section Grid

variable {m M : ℕ} {e E : ℤ} {accuracy : Accuracy}

theorem shiftToTargetExponent_eq (m : ℕ) (e : ℤ) (accuracy : Accuracy) :
    shiftToTargetExponent Format.binary64 m e accuracy =
      (ExtendedMantissa.ofMantissaAndAccuracy m accuracy >>> (grid m e - e).toNat,
        max e (grid m e)) := by
  unfold shiftToTargetExponent shiftToExponent
  apply Prod.ext
  · rfl
  · change e + ((grid m e - e).toNat : ℤ) = max e (grid m e)
    omega

theorem rounded_bounds (m : ℕ) (e : ℤ) (accuracy : Accuracy) :
    m / 2 ^ (grid m e - e).toNat ≤ rounded m e accuracy ∧
      rounded m e accuracy ≤ m / 2 ^ (grid m e - e).toNat + 1 := by
  have hmantissa : (shiftToTargetExponent Format.binary64 m e accuracy).1.mantissa =
      m / 2 ^ (grid m e - e).toNat := by
    rw [shiftToTargetExponent_eq, mantissa_shiftRight]
    unfold ExtendedMantissa.ofMantissaAndAccuracy
    split <;> rfl
  rw [← hmantissa]
  exact ⟨le_roundedMantissa _, roundedMantissa_le _⟩

theorem rounded_exact (h : 2 ^ (grid m e - e).toNat ∣ m) :
    rounded m e .exact = m / 2 ^ (grid m e - e).toNat := by
  unfold rounded
  rw [shiftToTargetExponent_eq]
  unfold ExtendedMantissa.ofMantissaAndAccuracy
  rw [shiftRight_exact h]
  rfl

theorem lt_two_pow_log2 (m : ℕ) : m < 2 ^ (m.log2 + 1) := Nat.lt_log2_self

/-- The bits that are kept fit the format, and fill it above the smallest exponent. -/
theorem kept_bounds (hm : 0 < m ∨ e ≤ -1074) (he : e ≤ grid m e) :
    m / 2 ^ (grid m e - e).toNat < 2 ^ 53 ∧
      (2 ^ 52 ≤ m / 2 ^ (grid m e - e).toNat ∨ grid m e = -1074) := by
  unfold grid at he ⊢
  constructor
  · rw [Nat.div_lt_iff_lt_mul (Nat.two_pow_pos _), ← pow_add]
    apply (lt_two_pow_log2 m).trans_le
    apply Nat.pow_le_pow_right two_pos
    omega
  · by_cases hsmallest : m.log2 + 1 + e - 53 ≤ -1074
    · exact Or.inr (max_eq_right hsmallest)
    · left
      have hpos : 0 < m := by
        rcases hm with hm | hsmall
        · exact hm
        · by_contra hzero
          rw [Nat.eq_zero_of_not_pos hzero, Nat.log2_zero] at hsmallest
          omega
      rw [Nat.le_div_iff_mul_le (Nat.two_pow_pos _), ← pow_add]
      apply le_trans _ (Nat.log2_self_le (Nat.ne_of_gt hpos))
      apply Nat.pow_le_pow_right two_pos
      omega

/-- The mantissa and the exponent that the second shift leaves: it takes away the bit that a carry
has added. -/
theorem shift_rounded (hm : 0 < m ∨ e ≤ -1074) (he : e ≤ grid m e) (accuracy : Accuracy) :
    shiftToTargetExponent Format.binary64 (rounded m e accuracy)
        (shiftToTargetExponent Format.binary64 m e accuracy).2 .exact =
      if rounded m e accuracy < 2 ^ 53 then
        (⟨rounded m e accuracy, false, false⟩, grid m e)
      else (⟨2 ^ 52, false, false⟩, grid m e + 1) := by
  have hmin : -1074 ≤ grid m e := le_max_right _ _
  have hfit := (kept_bounds hm he).1
  have hhigh := (rounded_bounds m e accuracy).2
  rw [shiftToTargetExponent_eq, shiftToTargetExponent_eq, max_eq_right he]
  dsimp only
  generalize grid m e = g at *
  generalize rounded m e accuracy = r at *
  split
  · next hlt =>
    have hlog : r.log2 ≤ 52 := by
      by_cases hzero : r = 0
      · rw [hzero]
        exact Nat.zero_le 52
      · exact Nat.lt_succ_iff.mp ((Nat.log2_lt hzero).mpr hlt)
    have hgrid : grid r g ≤ g := max_le (by omega) hmin
    rw [Int.toNat_eq_zero.mpr (by omega), max_eq_left hgrid]
    rfl
  · have hcarry : r = 2 ^ 53 := by omega
    have hgrid : grid r g = g + 1 := by
      rw [hcarry]
      unfold grid
      rw [Nat.log2_two_pow]
      omega
    rw [hgrid, max_eq_right (by omega), hcarry, show (g + 1 - g).toNat = 1 by omega]
    rfl

/-- The rounded number in canonical form. -/
theorem roundWithAccuracy_eq (sign : Sign) (hm : 0 < m ∨ e ≤ -1074) (he : e ≤ grid m e)
    (accuracy : Accuracy) :
    rounded m e accuracy = 0 ∧
        roundWithAccuracy Format.binary64 sign m e accuracy = .zero sign ∨
      ∃ M E, ∃ hM : 0 < M, Canonical M E ∧
        magnitude M E = magnitude (rounded m e accuracy) (grid m e) ∧
        roundWithAccuracy Format.binary64 sign m e accuracy = .finite sign M E hM := by
  have hmin : -1074 ≤ grid m e := le_max_right _ _
  have hfull := (kept_bounds hm he).2
  have hfit := (kept_bounds hm he).1
  obtain ⟨hlow, hhigh⟩ := rounded_bounds m e accuracy
  have hround : roundWithAccuracy Format.binary64 sign m e accuracy =
      if h : (shiftToTargetExponent Format.binary64 (rounded m e accuracy)
        (shiftToTargetExponent Format.binary64 m e accuracy).2 .exact).1.mantissa = 0 then
        .zero sign
      else .finite sign _ (shiftToTargetExponent Format.binary64 (rounded m e accuracy)
        (shiftToTargetExponent Format.binary64 m e accuracy).2 .exact).2
        (Nat.pos_of_ne_zero h) := rfl
  rw [hround, shift_rounded hm he]
  split
  · next hlt =>
    by_cases hzero : rounded m e accuracy = 0
    · left
      exact ⟨hzero, dif_pos hzero⟩
    · right
      refine ⟨_, _, Nat.pos_of_ne_zero hzero, ⟨hlt, hmin, ?_⟩, rfl, dif_neg hzero⟩
      exact hfull.imp (fun h => h.trans hlow) id
  · -- A carry leaves a one and zeros, of which the last one is shifted out.
    next hcarry =>
    have hrounded : rounded m e accuracy = 2 ^ 52 * 2 ^ 1 := by omega
    right
    refine ⟨2 ^ 52, grid m e + (1 : ℕ), by decide, ⟨by decide, by omega, Or.inl le_rfl⟩, ?_,
      dif_neg (Nat.two_pow_pos 52).ne'⟩
    rw [magnitude_add, hrounded]

/-- A canonical number with a smaller exponent lies below all numbers that fill the mantissa. -/
theorem magnitude_lt_of_full {n : ℕ} {g : ℤ} (h : Canonical M E) (hlt : E < g)
    (hfull : 2 ^ 52 ≤ n) : magnitude M E < magnitude n g := by
  obtain ⟨j, rfl⟩ : ∃ j : ℕ, g = E + (j + 1 : ℕ) := ⟨(g - E - 1).toNat, by omega⟩
  rw [magnitude_add, magnitude_lt_iff]
  calc M < 2 ^ 52 * 2 := h.lt
    _ ≤ n * 2 ^ (j + 1) := Nat.mul_le_mul hfull (Nat.le_self_pow (Nat.succ_ne_zero j) 2)

/-- A number of the format that is not above the exact result is not above the rounded one. -/
theorem le_rounded (hm : 0 < m ∨ e ≤ -1074) (he : e ≤ grid m e) (accuracy : Accuracy)
    (h : Canonical M E) (hle : magnitude M E ≤ magnitude m e) :
    magnitude M E ≤ magnitude (rounded m e accuracy) (grid m e) := by
  have hlow := (rounded_bounds m e accuracy).1
  have hfull := (kept_bounds hm he).2
  have hmin := h.exponent_ge
  obtain ⟨k, hk⟩ : ∃ k : ℕ, grid m e = e + k := ⟨(grid m e - e).toNat, by omega⟩
  rw [show (grid m e - e).toNat = k by omega] at hlow hfull
  rcases lt_or_ge E (grid m e) with hlt | hge
  · exact (magnitude_lt_of_full h hlt ((hfull.resolve_right (by omega)).trans hlow)).le
  · -- On the grid the number is a multiple of the last bit that is kept.
    obtain ⟨j, rfl⟩ : ∃ j : ℕ, E = grid m e + j := ⟨(E - grid m e).toNat, by omega⟩
    rw [magnitude_add, magnitude_le_iff]
    rw [magnitude_add, hk, magnitude_add, magnitude_le_iff] at hle
    exact ((Nat.le_div_iff_mul_le (Nat.two_pow_pos k)).mpr hle).trans hlow

/-- A number of the format that is not below the exact result is not below the rounded one. -/
theorem rounded_le (hm : 0 < m ∨ e ≤ -1074) (he : e ≤ grid m e) (h : Canonical M E)
    (hle : magnitude m e ≤ magnitude M E)
    (hlt : accuracy ≠ .exact → magnitude m e < magnitude M E) :
    magnitude (rounded m e accuracy) (grid m e) ≤ magnitude M E := by
  have hhigh := (rounded_bounds m e accuracy).2
  have hfull := (kept_bounds hm he).2
  have hexact := @rounded_exact m e
  have hmin := h.exponent_ge
  obtain ⟨k, hk⟩ : ∃ k : ℕ, grid m e = e + k := ⟨(grid m e - e).toNat, by omega⟩
  rw [show (grid m e - e).toNat = k by omega] at hhigh hfull hexact
  rcases lt_or_ge E (grid m e) with hsmall | hge
  · -- Such a number lies below the bits that are kept, so that it cannot be above the result.
    have hkept : magnitude (m / 2 ^ k) (grid m e) ≤ magnitude m e := by
      rw [hk, magnitude_add, magnitude_le_iff]
      exact Nat.div_mul_le_self m (2 ^ k)
    have habove := magnitude_lt_of_full h hsmall (hfull.resolve_right (by omega))
    exact absurd (habove.trans_le (hkept.trans hle)) (lt_irrefl _)
  · obtain ⟨j, rfl⟩ : ∃ j : ℕ, E = grid m e + j := ⟨(E - grid m e).toNat, by omega⟩
    rw [magnitude_add, magnitude_le_iff]
    have hscaled : magnitude M (grid m e + j) = magnitude (M * 2 ^ j * 2 ^ k) e := by
      rw [magnitude_add, hk, magnitude_add]
    rw [hscaled, magnitude_le_iff] at hle
    rw [hscaled, magnitude_lt_iff] at hlt
    rcases Nat.lt_or_ge (m / 2 ^ k) (M * 2 ^ j) with hbelow | habove
    · omega
    · -- Then the exact result is that number, and nothing is rounded.
      have heq : m = M * 2 ^ j * 2 ^ k :=
        le_antisymm hle ((Nat.le_div_iff_mul_le (Nat.two_pow_pos k)).mp habove)
      have haccuracy : accuracy = .exact := by
        by_contra hne
        exact absurd (hlt hne) (Nat.not_lt.mpr heq.ge)
      rw [haccuracy, hexact (heq ▸ Nat.dvd_mul_left (2 ^ k) _)]
      exact Nat.div_le_of_le_mul (by rw [mul_comm]; exact hle)

end Grid

section Results

variable {x y z : Float} {v w t : ℚ} {m : ℕ} {e : ℤ}

/-- No number of the format lies between the two values, and none equals the second one only. -/
def Beside (u v : ℚ) : Prop :=
  ∀ ⦃z : Float⦄ ⦃t : ℚ⦄, Represents z t → (t ≤ v → t ≤ u) ∧ (v ≤ t → u ≤ t)

theorem represents_pack_zero (sign : Sign) :
    Represents (.ofModel (.pack (.zero sign))) 0 := by
  have hunpack : (Float.ofModel (Float.Model.pack (.zero sign))).toModel.unpack = .zero sign := by
    change UnpackedFloat.unpack Format.binary64 (packedZero Format.binary64 sign) = _
    exact unpack_packedZero
  unfold Represents
  rw [hunpack]
  rfl

/-- A result that is not above some number of the format is not rounded to infinity. -/
theorem represents_roundWithAccuracy (hm : 0 < m ∨ e ≤ -1074) (he : e ≤ grid m e)
    (accuracy : Accuracy) (hz : Represents z t) (ht : 0 < t) (hle : magnitude m e ≤ t)
    (hlt : accuracy ≠ .exact → magnitude m e < t) :
    Represents (.ofModel (.pack (roundWithAccuracy Format.binary64 .positive m e accuracy)))
      (magnitude (rounded m e accuracy) (grid m e)) := by
  obtain ⟨M', E', hM', -, hcanonical', hE', rfl⟩ := hz.exists_canonical ht
  have hbound := rounded_le hm he hcanonical' hle hlt
  rcases roundWithAccuracy_eq .positive hm he accuracy with ⟨hzero, hround⟩ |
    ⟨M, E, hM, hcanonical, hvalue, hround⟩
  · have hnone : magnitude 0 (grid m e) = 0 := by
      unfold magnitude
      rw [Nat.cast_zero, zero_mul]
    rw [hround, hzero, hnone]
    exact represents_pack_zero .positive
  · rw [← hvalue] at hbound ⊢
    have hE : E ≤ 971 := by
      by_contra hlarge
      have habove := magnitude_lt_of_exponent_lt hcanonical' hcanonical (by omega)
      exact absurd hbound (not_le.mpr habove)
    rw [hround]
    exact represents_of_unpack (unpack_pack hcanonical hE)

theorem beside_rounded (hm : 0 < m) (he : e ≤ grid m e) :
    Beside (magnitude (rounded m e .exact) (grid m e)) (magnitude m e) := by
  intro z t hz
  have hnonneg : 0 ≤ magnitude (rounded m e .exact) (grid m e) :=
    mul_nonneg (Nat.cast_nonneg _) (zpow_pos two_pos _).le
  constructor
  · intro hle
    rcases le_or_gt t 0 with hneg | hpos
    · exact hneg.trans hnonneg
    · obtain ⟨M, E, -, -, hcanonical, -, rfl⟩ := hz.exists_canonical hpos
      exact le_rounded (Or.inl hm) he .exact hcanonical hle
  · intro hle
    have hpos : 0 < t := (magnitude_pos hm e).trans_le hle
    obtain ⟨M, E, -, -, hcanonical, -, rfl⟩ := hz.exists_canonical hpos
    exact rounded_le (Or.inl hm) he hcanonical hle fun hne => absurd rfl hne

theorem log2_mul_two_pow (hm : 0 < m) (k : ℕ) : (m * 2 ^ k).log2 = m.log2 + k := by
  rw [Nat.log2_eq_iff (Nat.mul_pos hm (Nat.two_pow_pos k)).ne', pow_add]
  constructor
  · exact Nat.mul_le_mul_right _ (Nat.log2_self_le hm.ne')
  · rw [add_right_comm, pow_add]
    exact Nat.mul_lt_mul_of_pos_right (lt_two_pow_log2 m) (Nat.two_pow_pos k)

/-- A mantissa with too few bits is filled up before it is rounded. -/
theorem represents_round (hm : 0 < m) (e : ℤ) (hz : Represents z t) (hle : magnitude m e ≤ t) :
    ∃ u, Represents (.ofModel (.pack (UnpackedFloat.round Format.binary64 .positive m e))) u ∧
      Beside u (magnitude m e) := by
  let k := (e - grid m e).toNat
  have hround : UnpackedFloat.round Format.binary64 .positive m e =
      roundWithAccuracy Format.binary64 .positive (m * 2 ^ k) (e - k) .exact := by
    rw [← Nat.shiftLeft_eq]
    rfl
  have hfilled : 0 < m * 2 ^ k := Nat.mul_pos hm (Nat.two_pow_pos k)
  have hgrid : e - k ≤ grid (m * 2 ^ k) (e - k) := by
    have hk : (k : ℤ) = (e - grid m e).toNat := rfl
    unfold grid at hk ⊢
    rw [log2_mul_two_pow hm]
    push_cast
    omega
  have hvalue : magnitude (m * 2 ^ k) (e - k) = magnitude m e := by
    rw [← magnitude_add, sub_add_cancel]
  have ht : 0 < t := (magnitude_pos hm e).trans_le hle
  rw [hround, ← hvalue]
  exact ⟨_, represents_roundWithAccuracy (Or.inl hfilled) hgrid .exact hz ht (hvalue.trans_le hle)
    (fun hne => absurd rfl hne), beside_rounded hfilled hgrid⟩

theorem normalize_natCast (hm : 0 < m) (e : ℤ) (zero : Sign) :
    UnpackedFloat.normalize Format.binary64 m e zero =
      UnpackedFloat.round Format.binary64 .positive m e := by
  unfold UnpackedFloat.normalize
  rw [Int.compare_eq_gt.mpr (Int.natCast_pos.mpr hm)]
  rfl

/-- The sum of two positive numbers. -/
theorem represents_add (hx : Represents x v) (hy : Represents y w) (hv : 0 < v) (hw : 0 < w)
    (hz : Represents z t) (hle : v + w ≤ t) : ∃ u, Represents (x + y) u ∧ Beside u (v + w) := by
  obtain ⟨m₁, e₁, hm₁, hunpack₁, -, -, rfl⟩ := hx.exists_canonical hv
  obtain ⟨m₂, e₂, hm₂, hunpack₂, -, -, rfl⟩ := hy.exists_canonical hw
  let e := min e₁ e₂
  let m := m₁ * 2 ^ (e₁ - e).toNat + m₂ * 2 ^ (e₂ - e).toNat
  have hm : 0 < m := Nat.add_pos_left (Nat.mul_pos hm₁ (Nat.two_pow_pos _)) _
  have hshift : ∀ n : ℕ, ∀ e' : ℤ, e ≤ e' →
      magnitude n e' = magnitude (n * 2 ^ (e' - e).toNat) e := by
    intro n e' he'
    rw [← magnitude_add]
    congr 1
    omega
  have hvalue : magnitude m₁ e₁ + magnitude m₂ e₂ = magnitude m e := by
    rw [hshift m₁ e₁ (min_le_left _ _), hshift m₂ e₂ (min_le_right _ _), magnitude_add_mantissa]
  have hadd : x + y = .ofModel (.pack (UnpackedFloat.round Format.binary64 .positive m e)) := by
    have hsum : UnpackedFloat.add Format.binary64 x.toModel.unpack y.toModel.unpack =
        UnpackedFloat.normalize Format.binary64
          ((m₁ <<< (e₁ - e).toNat : ℕ) + (m₂ <<< (e₂ - e).toNat : ℕ)) e .positive := by
      rw [hunpack₁, hunpack₂]
      rfl
    change Float.ofModel (.pack (.add .binary64 x.toModel.unpack y.toModel.unpack)) = _
    rw [hsum, Nat.shiftLeft_eq, Nat.shiftLeft_eq, ← Nat.cast_add, normalize_natCast hm]
  rw [hadd, hvalue]
  exact represents_round hm e hz (hvalue.symm.trans_le hle)

section Quotient

variable {m₁ m₂ : ℕ} {e₁ e₂ : ℤ}

/-- The exponent at which a quotient is cut off. -/
def quotientExponent (m₁ m₂ : ℕ) (e₁ e₂ : ℤ) : ℤ :=
  min (e₁ - e₂) (max (m₁.log2 + 1 + e₁ - (m₂.log2 + 1 + e₂) - 53) (-1074))

/-- The dividend at that exponent. -/
def dividend (m₁ m₂ : ℕ) (e₁ e₂ : ℤ) : ℕ :=
  m₁ * 2 ^ (e₁ - e₂ - quotientExponent m₁ m₂ e₁ e₂).toNat

theorem magnitude_dividend (m₁ m₂ : ℕ) (e₁ e₂ : ℤ) :
    magnitude (dividend m₁ m₂ e₁ e₂) (quotientExponent m₁ m₂ e₁ e₂) = magnitude m₁ (e₁ - e₂) := by
  have hle : quotientExponent m₁ m₂ e₁ e₂ ≤ e₁ - e₂ := min_le_left _ _
  unfold dividend
  rw [← magnitude_add]
  congr 1
  omega

/-- A quotient is cut off with enough bits, unless it is below the smallest exponent. -/
theorem quotient_full (hm₁ : 0 < m₁) (hm₂ : 0 < m₂) :
    2 ^ 52 ≤ dividend m₁ m₂ e₁ e₂ / m₂ ∨ quotientExponent m₁ m₂ e₁ e₂ ≤ -1074 := by
  by_cases hsmall : quotientExponent m₁ m₂ e₁ e₂ ≤ -1074
  · exact Or.inr hsmall
  · left
    have hlong : m₂.log2 + 1 + 52 ≤
        m₁.log2 + (e₁ - e₂ - quotientExponent m₁ m₂ e₁ e₂).toNat := by
      unfold quotientExponent at hsmall ⊢
      omega
    rw [Nat.le_div_iff_mul_le hm₂]
    calc 2 ^ 52 * m₂ ≤ 2 ^ 52 * 2 ^ (m₂.log2 + 1) :=
          Nat.mul_le_mul_left _ (lt_two_pow_log2 m₂).le
      _ = 2 ^ (m₂.log2 + 1 + 52) := by rw [← pow_add, add_comm]
      _ ≤ 2 ^ (m₁.log2 + (e₁ - e₂ - quotientExponent m₁ m₂ e₁ e₂).toNat) :=
          Nat.pow_le_pow_right two_pos hlong
      _ = 2 ^ m₁.log2 * 2 ^ (e₁ - e₂ - quotientExponent m₁ m₂ e₁ e₂).toNat := pow_add _ _ _
      _ ≤ dividend m₁ m₂ e₁ e₂ := Nat.mul_le_mul_right _ (Nat.log2_self_le hm₁.ne')

theorem le_grid_of_full {q : ℕ} {D : ℤ} (h : 2 ^ 52 ≤ q ∨ D ≤ -1074) :
    (0 < q ∨ D ≤ -1074) ∧ D ≤ grid q D := by
  unfold grid
  rcases h with hfull | hsmall
  · have hpos : 0 < q := (Nat.two_pow_pos 52).trans_le hfull
    have hlog := (Nat.le_log2 hpos.ne').mpr hfull
    exact ⟨Or.inl hpos, by omega⟩
  · exact ⟨Or.inr hsmall, by omega⟩

theorem represents_one : Represents 1 1 := by
  have hunpack := @represents_of_unpack 1 (2 ^ 52) (-52) (by decide) rfl
  have hvalue : magnitude (2 ^ 52) (-52) = 1 := by
    unfold magnitude
    norm_num
  rw [hvalue] at hunpack
  exact hunpack

/-- The quotient of two numbers of which the first one is not larger. -/
theorem represents_div (hx : Represents x v) (hy : Represents y w) (hv : 0 ≤ v) (hw : 0 < w)
    (hle : v ≤ w) : ∃ u, Represents (x / y) u ∧ 0 ≤ u ∧ u ≤ 1 := by
  obtain ⟨m₂, e₂, hm₂, hunpack₂, -, -, rfl⟩ := hy.exists_canonical hw
  rcases hv.eq_or_lt with rfl | hv
  · obtain ⟨sign, hunpack⟩ := hx.exists_zero
    have hdiv : x / y = .ofModel (.pack (.zero (sign / .positive))) := by
      change Float.ofModel (.pack (.div .binary64 x.toModel.unpack y.toModel.unpack)) = _
      rw [hunpack, hunpack₂]
      rfl
    rw [hdiv]
    exact ⟨0, represents_pack_zero _, le_rfl, zero_le_one⟩
  · obtain ⟨m₁, e₁, hm₁, hunpack₁, -, -, rfl⟩ := hx.exists_canonical hv
    let D := quotientExponent m₁ m₂ e₁ e₂
    let n := dividend m₁ m₂ e₁ e₂
    obtain ⟨hpos, hgrid⟩ := le_grid_of_full (@quotient_full m₁ m₂ e₁ e₂ hm₁ hm₂)
    have hdiv : x / y = .ofModel (.pack (roundWithAccuracy .binary64 .positive (n / m₂) D
        (accuracyOfFraction (n % m₂) m₂))) := by
      have hquot : UnpackedFloat.div .binary64 x.toModel.unpack y.toModel.unpack =
          roundWithAccuracy .binary64 .positive
            (m₁ <<< (e₁ - e₂ - quotientExponent m₁ m₂ e₁ e₂).toNat / m₂) D
            (accuracyOfFraction (m₁ <<< (e₁ - e₂ - quotientExponent m₁ m₂ e₁ e₂).toNat % m₂)
              m₂) := by
        rw [hunpack₁, hunpack₂]
        rfl
      change Float.ofModel (.pack (.div .binary64 x.toModel.unpack y.toModel.unpack)) = _
      rw [hquot, Nat.shiftLeft_eq]
      rfl
    -- What is cut off is not above the exact quotient, which is at most one.
    have hexact : magnitude n D ≤ m₂ := by
      rw [magnitude_dividend]
      unfold magnitude at hle ⊢
      rw [zpow_sub₀ two_ne_zero, mul_div_assoc', div_le_iff₀ (zpow_pos two_pos e₂)]
      exact hle
    have hcast : (0 : ℚ) < m₂ := Nat.cast_pos.mpr hm₂
    have hquotient : magnitude (n / m₂) D * m₂ = magnitude (n / m₂ * m₂) D := by
      unfold magnitude
      push_cast
      ring
    have hone : magnitude (n / m₂) D ≤ 1 := by
      apply le_of_mul_le_mul_right _ hcast
      rw [hquotient, one_mul]
      exact ((magnitude_le_iff D).mpr (Nat.div_mul_le_self n m₂)).trans hexact
    have hstrict : accuracyOfFraction (n % m₂) m₂ ≠ .exact → magnitude (n / m₂) D < 1 := by
      intro hinexact
      have hrest : 0 < n % m₂ := by
        by_contra hzero
        apply hinexact
        rw [Nat.eq_zero_of_not_pos hzero]
        rfl
      have hbelow : n / m₂ * m₂ < n := by
        have hsplit := Nat.div_add_mod' n m₂
        omega
      apply lt_of_mul_lt_mul_right _ hcast.le
      rw [hquotient, one_mul]
      exact ((magnitude_lt_iff D).mpr hbelow).trans_le hexact
    rw [hdiv]
    have hresult := represents_roundWithAccuracy hpos hgrid _ represents_one one_pos hone hstrict
    refine ⟨_, hresult, mul_nonneg (Nat.cast_nonneg _) (zpow_pos two_pos _).le, ?_⟩
    obtain ⟨M, E, -, -, hcanonical, -, hvalue⟩ := represents_one.exists_canonical one_pos
    rw [hvalue] at hone hstrict ⊢
    exact rounded_le hpos hgrid hcanonical hone hstrict

end Quotient

section Naturals

variable {n : ℕ}

theorem represents_two_pow_64 : Represents 18446744073709551616 (2 ^ 64) := by
  have hunpack := @represents_of_unpack 18446744073709551616 (2 ^ 52) 12 (by decide) rfl
  have hvalue : magnitude (2 ^ 52) 12 = 2 ^ 64 := by
    unfold magnitude
    norm_num
  rw [hvalue] at hunpack
  exact hunpack

/-- A product that is computed with more bits than the format has. -/
theorem represents_long {M : ℕ} {E : ℤ} (hM : 0 < M) (hE : E ≤ grid M E)
    (hz : Represents z t) (hle : magnitude M E ≤ t) :
    ∃ u, Represents (.ofModel (.pack (roundWithAccuracy .binary64 .positive M E .exact))) u ∧
      Beside u (magnitude M E) :=
  ⟨_, represents_roundWithAccuracy (Or.inl hM) hE .exact hz ((magnitude_pos hM E).trans_le hle) hle
    (fun hne => absurd rfl hne), beside_rounded hM hE⟩

/-- A mantissa that is filled up with zeros is rounded to itself. -/
theorem represents_filled (hm : 0 < m) (hx : Represents x (magnitude m e)) :
    Represents (.ofModel (.pack (roundWithAccuracy .binary64 .positive (m * 2 ^ 52) (e + -52)
      .exact))) (magnitude m e) := by
  have hvalue : magnitude (m * 2 ^ 52) (e + -52) = magnitude m e := by
    rw [← magnitude_add]
    congr 1
    omega
  have hgrid : e + -52 ≤ grid (m * 2 ^ 52) (e + -52) := by
    unfold grid
    rw [log2_mul_two_pow hm]
    push_cast
    omega
  obtain ⟨u, hu, hbeside⟩ :=
    represents_long (Nat.mul_pos hm (Nat.two_pow_pos 52)) hgrid hx hvalue.le
  rw [hvalue] at hbeside
  have heq : u = magnitude m e := le_antisymm ((hbeside hx).2 le_rfl) ((hbeside hx).1 le_rfl)
  rw [heq] at hu
  exact hu

theorem represents_mul_one (hx : Represents x v) (hv : 0 < v) : Represents (x * 1) v := by
  obtain ⟨m, e, hm, hunpack, -, -, rfl⟩ := hx.exists_canonical hv
  have hmul : UnpackedFloat.mul .binary64 x.toModel.unpack (1 : Float).toModel.unpack =
      roundWithAccuracy .binary64 .positive (m * 2 ^ 52) (e + -52) .exact := by
    rw [hunpack]
    rfl
  change Represents
    (.ofModel (.pack (.mul .binary64 x.toModel.unpack (1 : Float).toModel.unpack))) _
  rw [hmul]
  exact represents_filled hm hx

theorem represents_one_mul (hx : Represents x v) (hv : 0 < v) : Represents (1 * x) v := by
  obtain ⟨m, e, hm, hunpack, -, -, rfl⟩ := hx.exists_canonical hv
  have hmul : UnpackedFloat.mul .binary64 (1 : Float).toModel.unpack x.toModel.unpack =
      roundWithAccuracy .binary64 .positive (2 ^ 52 * m) (-52 + e) .exact := by
    rw [hunpack]
    rfl
  change Represents
    (.ofModel (.pack (.mul .binary64 (1 : Float).toModel.unpack x.toModel.unpack))) _
  rw [hmul, mul_comm, add_comm]
  exact represents_filled hm hx

/-- A number that fits the mantissa is converted as a machine word, and a larger one as a decimal
without places. -/
theorem ofNat_eq (n : ℕ) :
    Float.ofNat n =
      if n < 2 ^ 53 then n.toUInt64.toFloat * 1 else .ofModel (.ofScientific n 0) := by
  change Float.ofScientific n false 0 = _
  unfold Float.ofScientific
  by_cases h : n < 2 ^ 53
  · rw [dif_pos ⟨h, by decide⟩, if_pos h]
    rfl
  · rw [dif_neg (fun h' => h h'.1), if_neg h]
    rfl

/-- A natural number as a number of the format. -/
theorem represents_ofNat (hn : 0 < n) (hle : n ≤ 2 ^ 64) :
    ∃ u, Represents (Float.ofNat n) u ∧ Beside u n := by
  have hbound : (n : ℚ) ≤ 2 ^ 64 := by exact_mod_cast hle
  rw [ofNat_eq]
  split
  · next hshort =>
    have hvalue : magnitude n 0 = n := by
      unfold magnitude
      rw [zpow_zero, mul_one]
    have hconvert : n.toUInt64.toFloat =
        .ofModel (.pack (UnpackedFloat.round .binary64 .positive n 0)) := by
      have hnat : n.toUInt64.toNat = n := Nat.mod_eq_of_lt (by omega)
      have hnormal : UnpackedFloat.normalize .binary64 (n.toUInt64.toNat : ℕ) 0 .positive =
          UnpackedFloat.round .binary64 .positive n 0 := by
        rw [hnat, normalize_natCast hn]
      change Float.ofModel
        (.pack (.normalize .binary64 (n.toUInt64.toNat : ℕ) 0 .positive)) = _
      rw [hnormal]
    obtain ⟨u, hu, hbeside⟩ := represents_round hn 0 represents_two_pow_64 (hvalue.trans_le hbound)
    rw [hvalue] at hbeside
    have hpos : 0 < u := one_pos.trans_le ((hbeside represents_one).1 (by exact_mod_cast hn))
    rw [← hconvert] at hu
    exact ⟨u, represents_mul_one hu hpos, hbeside⟩
  · next hlong =>
    have hvalue : magnitude (n * 2 ^ 53) (-53) = n := by
      rw [← magnitude_add]
      unfold magnitude
      norm_num
    have hgrid : -53 ≤ grid (n * 2 ^ 53) (-53) := by
      unfold grid
      rw [log2_mul_two_pow hn]
      push_cast
      omega
    have hconvert : UnpackedFloat.ofScientific .binary64 n 0 =
        roundWithAccuracy .binary64 .positive (n * 2 ^ 53) (-53) .exact := by
      have hlarge : ¬ (0 : ℤ) < -((2 ^ Format.binary64.exponentBits : ℤ) + n.log2) := by
        change ¬ (0 : ℤ) < -((2 ^ 11 : ℤ) + n.log2)
        omega
      unfold UnpackedFloat.ofScientific
      rw [dif_neg hn.ne', if_neg (by decide), if_neg hlarge, if_pos le_rfl, ← Nat.shiftLeft_eq,
        ← mul_one (n <<< 53)]
      change roundWithAccuracy .binary64 (.positive * .positive) (n <<< 53 * 1) (-53 + 0) .exact = _
      rfl
    -- The format holds the power that bounds the words, so that the result is not infinite.
    obtain ⟨u, hu, hbeside⟩ := represents_long (Nat.mul_pos hn (Nat.two_pow_pos 53)) hgrid
      represents_two_pow_64 (hvalue.trans_le hbound)
    rw [hvalue] at hbeside
    refine ⟨u, ?_, hbeside⟩
    change Represents (.ofModel (.pack (UnpackedFloat.ofScientific .binary64 n 0))) u
    rw [hconvert]
    exact hu

end Naturals

end Results

end PathSelection
