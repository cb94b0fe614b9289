import Mathlib.Data.FinEnum
import Mathlib.Data.Nat.ModEq
import Mathlib.Data.Nat.Prime.Basic
import PathSelection.Seed

namespace PathSelection

open Function

section Word

/-- A word is determined by its exclusive or with itself moved to the right. -/
theorem xor_shiftRight_injective {shift : UInt64} (hshift : 0 < shift.toNat % 64) :
    Injective fun x : UInt64 => x ^^^ x >>> shift := by
  intro x y hxy
  -- The difference of the two words is not changed by the shift, which only zero survives.
  have hfixed : x ^^^ y = (x ^^^ y) >>> shift := by
    apply UInt64.xor_eq_zero_iff.mp
    calc x ^^^ y ^^^ (x ^^^ y) >>> shift
        = (x ^^^ x >>> shift) ^^^ (y ^^^ y >>> shift) := by
          rw [UInt64.shiftRight_xor]
          ac_rfl
      _ = 0 := UInt64.xor_eq_zero_iff.mpr hxy
  have hdiv : (x ^^^ y).toNat / 2 ^ (shift.toNat % 64) = (x ^^^ y).toNat := by
    rw [← Nat.shiftRight_eq_div_pow, ← UInt64.toNat_shiftRight, ← hfixed]
  have hzero : (x ^^^ y).toNat = 0 := by
    by_contra hne
    have hpow : 1 < 2 ^ (shift.toNat % 64) := Nat.one_lt_two_pow hshift.ne'
    exact (Nat.div_lt_self (Nat.pos_of_ne_zero hne) hpow).ne hdiv
  exact UInt64.xor_eq_zero_iff.mp (UInt64.toNat_inj.mp hzero)

/-- An odd factor can be cancelled. -/
theorem mul_injective_of_odd {factor : UInt64} (hodd : Odd factor.toNat) :
    Injective fun x : UInt64 => x * factor := by
  intro x y hxy
  have hcoprime : Nat.gcd (2 ^ 64) factor.toNat = 1 :=
    Nat.Coprime.pow_left 64 (Nat.coprime_two_left.mpr hodd)
  have hmul : x.toNat * factor.toNat ≡ y.toNat * factor.toNat [MOD 2 ^ 64] := by
    have hnat := congrArg UInt64.toNat hxy
    dsimp only at hnat
    rwa [UInt64.toNat_mul, UInt64.toNat_mul] at hnat
  have hmod := Nat.ModEq.cancel_right_of_coprime hcoprime hmul
  exact UInt64.toNat_inj.mp (hmod.eq_of_lt_of_lt x.toNat_lt y.toNat_lt)

end Word

theorem scramble_injective : Injective scramble := by
  have hcounter : Injective fun x : UInt64 => x + 0x9e3779b97f4a7c15 := fun _ _ hxy =>
    (UInt64.add_left_inj _).mp hxy
  have hround (shift factor : UInt64) (hshift : 0 < shift.toNat % 64) (hodd : Odd factor.toNat) :
      Injective fun x : UInt64 => (x ^^^ x >>> shift) * factor :=
    (mul_injective_of_odd hodd).comp (xor_shiftRight_injective hshift)
  have hfirst := hround 30 0xbf58476d1ce4e5b9 (by decide) (by decide)
  have hsecond := hround 27 0x94d049bb133111eb (by decide) (by decide)
  have hlast := @xor_shiftRight_injective 31 (by decide)
  exact hlast.comp (hsecond.comp (hfirst.comp hcounter))

theorem scramble_bijective : Bijective scramble :=
  Finite.injective_iff_bijective.mp scramble_injective

section Hash

/-- The hash after one more byte. -/
def absorb (state : UInt64) (byte : UInt8) : UInt64 := (state ^^^ byte.toUInt64) * 1099511628211

theorem hashFrom_cons (state : UInt64) (byte : UInt8) (bytes : List UInt8) :
    hashFrom state (byte :: bytes) = hashFrom (absorb state byte) bytes := rfl

theorem xor_eq_xor_of_absorb_eq {state other : UInt64} {byte byte' : UInt8}
    (h : absorb state byte = absorb other byte') :
    state ^^^ byte.toUInt64 = other ^^^ byte'.toUInt64 :=
  @mul_injective_of_odd 1099511628211 (by decide) _ _ h

theorem absorb_injective_left (byte : UInt8) : Injective (absorb · byte) := by
  intro state other h
  exact (UInt64.xor_left_inj _).mp (xor_eq_xor_of_absorb_eq h)

theorem absorb_injective_right (state : UInt64) : Injective (absorb state) := by
  intro byte other h
  exact UInt8.toUInt64_inj.mp ((UInt64.xor_right_inj _).mp (xor_eq_xor_of_absorb_eq h))

/-- No byte that follows makes two different hashes the same. -/
theorem hashFrom_injective (bytes : List UInt8) : Injective (hashFrom · bytes) := by
  induction bytes with
  | nil => exact injective_id
  | cons byte bytes ih => exact ih.comp (absorb_injective_left byte)

/-- The number of positions at which two lists differ. -/
def differences (xs ys : List UInt8) : ℕ := (xs.zip ys).countP fun p => p.1 != p.2

theorem differences_cons (x y : UInt8) (xs ys : List UInt8) :
    differences (x :: xs) (y :: ys) = differences xs ys + if x = y then 0 else 1 := by
  unfold differences
  rw [List.zip_cons_cons, List.countP_cons]
  by_cases h : x = y <;> simp [h]

theorem eq_of_differences_eq_zero {xs ys : List UInt8} (hlength : xs.length = ys.length)
    (h : differences xs ys = 0) : xs = ys := by
  induction xs generalizing ys with
  | nil => exact (List.length_eq_zero_iff.mp hlength.symm).symm
  | cons x xs ih =>
    cases ys with
    | nil => exact absurd hlength (Nat.succ_ne_zero _)
    | cons y ys =>
      rw [differences_cons, Nat.add_eq_zero_iff] at h
      have hhead : x = y := by
        by_contra hne
        exact absurd h.2 (by rw [if_neg hne]; decide)
      rw [hhead, ih (Nat.succ.inj hlength) h.1]

/-- Up to the byte that differs the hashes are the same, and from there on they are different. -/
theorem hashFrom_ne {xs ys : List UInt8} (hlength : xs.length = ys.length)
    (honce : differences xs ys = 1) (state : UInt64) : hashFrom state xs ≠ hashFrom state ys := by
  induction xs generalizing ys state with
  | nil => exact absurd honce (by simp [differences])
  | cons x xs ih =>
    cases ys with
    | nil => exact absurd hlength (Nat.succ_ne_zero _)
    | cons y ys =>
      have hlength' : xs.length = ys.length := Nat.succ.inj hlength
      rw [differences_cons] at honce
      rw [hashFrom_cons, hashFrom_cons]
      by_cases hhead : x = y
      · rw [if_pos hhead] at honce
        rw [hhead]
        exact ih hlength' honce _
      · rw [if_neg hhead] at honce
        have htail : xs = ys := eq_of_differences_eq_zero hlength' (Nat.succ.inj honce)
        rw [htail]
        exact fun h => hhead (absorb_injective_right state (hashFrom_injective ys h))

end Hash

theorem deriveSeed_bijective (label : String) : Bijective (deriveSeed · label) := by
  have hxor : Injective fun master : UInt64 => master ^^^ hashLabel label.toUTF8.toList :=
    fun _ _ h => (UInt64.xor_left_inj _).mp h
  exact scramble_bijective.comp (Finite.injective_iff_bijective.mp hxor)

/-- A derived seed loses nothing of the master seed, whatever the label is, so that different master
seeds give no component and no repetition the same one. For a given master seed it tells apart all
labels of one length in bytes that differ in a single byte. -/
theorem deriveSeed_lossless :
    (∀ label, Bijective (deriveSeed · label)) ∧
    (∀ s t : SeedSequence, s.master ≠ t.master → ∀ family index,
      s.seedFor family index ≠ t.seedFor family index ∧
        (s.repetition index).master ≠ (t.repetition index).master) ∧
    ∀ master (label other : String),
      label.toUTF8.toList.length = other.toUTF8.toList.length →
      differences label.toUTF8.toList other.toUTF8.toList = 1 →
      deriveSeed master label ≠ deriveSeed master other := by
  refine ⟨deriveSeed_bijective, fun s t hne family index => ⟨?_, ?_⟩, ?_⟩
  · exact (deriveSeed_bijective _).injective.ne hne
  · exact (deriveSeed_bijective _).injective.ne hne
  · intro master label other hlength honce h
    have hhash : hashLabel label.toUTF8.toList = hashLabel other.toUTF8.toList :=
      (UInt64.xor_right_inj master).mp (scramble_injective h)
    exact hashFrom_ne hlength honce _ hhash

/-- Two policies whose indices differ in one digit, and two paths. -/
theorem deriveSeed_lossless_digit :
    (SeedSequence.mk 42).seedFor "policy" 3 ≠ (SeedSequence.mk 42).seedFor "policy" 7 ∧
      (SeedSequence.mk 42).seedFor "path" 10 ≠ (SeedSequence.mk 42).seedFor "path" 20 :=
  ⟨deriveSeed_lossless.2.2 42 _ _ (by decide +kernel) (by decide +kernel),
    deriveSeed_lossless.2.2 42 _ _ (by decide +kernel) (by decide +kernel)⟩

end PathSelection
