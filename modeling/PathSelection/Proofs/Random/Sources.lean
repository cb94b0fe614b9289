import Mathlib.Tactic.Linarith
import PathSelection.Proofs.Reals
import PathSelection.Random.Source

namespace PathSelection

/-- What a source of draws promises: an order is a rearrangement, and a draw lies in `[0, 1)`. -/
structure LawfulDraws (ρ : Type) [DrawSource ρ ℝ] : Prop where
  order_perm : ∀ n (rng : ρ), (DrawSource.order n rng).1.Perm (List.range n)
  uniform_mem : ∀ rng : ρ, 0 ≤ (DrawSource.uniform rng).1 ∧ (DrawSource.uniform rng).1 < 1

/-- A visiting order, and the draws that are made one after another. -/
structure Tape where
  order : List ℕ
  draws : ℕ → ℝ

instance : DrawSource Tape ℝ where
  uniform t := (t.draws 0, ⟨t.order, fun n => t.draws (n + 1)⟩)
  order _ t := (t.order, t)

/-- Subsets are taken from the order, and of other distributions a tape knows nothing. -/
instance : RandomSource Tape ℝ where
  subset _ m t := (t.order.take m, t)
  beta _ _ t := DrawSource.uniform t
  normal mean _ t := (mean, t)

/-- A generator of random words whose draws are taken as they are, without rounding. -/
structure RealWords (ω : Type) where
  words : ω

noncomputable instance {ω : Type} [WordSource ω] : DrawSource (RealWords ω) ℝ where
  uniform r := (((WordSource.next64 r.words).1 >>> 11).toNat / 2 ^ 53,
    ⟨(WordSource.next64 r.words).2⟩)
  order n r := ((Draw.order n r.words).1, ⟨(Draw.order n r.words).2⟩)

/-- The upper 53 bits of a word are a fraction below one, and a shuffle only rearranges. -/
theorem lawfulDraws_realWords {ω : Type} [WordSource ω] : LawfulDraws (RealWords ω) := by
  refine ⟨fun n r => Draw.order_perm n r.words, fun r => ?_⟩
  have hbits : ((WordSource.next64 r.words).1 >>> 11).toNat < 2 ^ 53 := by
    have hword := (WordSource.next64 r.words).1.toNat_lt
    rw [UInt64.toNat_shiftRight, Nat.shiftRight_eq_div_pow]
    exact Nat.div_lt_of_lt_mul hword
  have hreal : (((WordSource.next64 r.words).1 >>> 11).toNat : ℝ) < 2 ^ 53 := by
    exact_mod_cast hbits
  constructor
  · exact div_nonneg (Nat.cast_nonneg _) (by norm_num)
  · exact (div_lt_one (by norm_num)).mpr hreal

end PathSelection
