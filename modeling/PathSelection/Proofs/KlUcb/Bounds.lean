import PathSelection.Proofs.Binary64
import PathSelection.Proofs.Ranking
import PathSelection.Policy.KlUcb

namespace PathSelection

open Float.Model

namespace KlIndex

theorem unpack_margin : ∃ m, ∃ hm : 0 < m, m < 2 ^ 53 ∧
    (margin : Float).toModel.unpack = .finite .positive m (-79) hm :=
  ⟨6044629098073146, by decide, by decide, rfl⟩

/-- The start of the Newton steps. -/
theorem floatRank_add_margin_lt {p : Float} (hself : (p == p) = true) (hmargin : ¬ p < margin)
    (hone : ¬ 1 ≤ p) : floatRank (p + margin) < floatRank (1 / 0) := by
  change (p.toModel.unpack.compare p.toModel.unpack == some .eq) = true at hself
  rw [float_lt_iff] at hmargin
  rw [float_le_iff, show (1 : Float).toModel.unpack =
    .finite .positive (2 ^ 52) (-52) (by decide) from rfl] at hone
  obtain ⟨mMargin, hpos, hlt, hunpack⟩ := unpack_margin
  change floatRank (.ofModel (.pack (.add .binary64 p.toModel.unpack
    (margin : Float).toModel.unpack))) < floatRank (1 / 0)
  apply floatRank_pack_lt
  rw [hunpack] at hmargin ⊢
  -- Nothing but a positive number below one passes all three comparisons.
  cases hp : p.toModel.unpack with
  | notANumber =>
    rw [hp] at hself
    exact absurd hself (by decide)
  | infinity sign =>
    rw [hp] at hmargin hone
    cases sign with
    | negative => exact absurd rfl hmargin
    | positive => exact absurd rfl hone
  | zero sign =>
    rw [hp] at hmargin
    exact absurd rfl hmargin
  | finite sign m e hm =>
    cases sign with
    | negative =>
      rw [hp] at hmargin
      exact absurd rfl hmargin
    | positive =>
      rw [hp] at hmargin hone
      change ¬ (some ((compare e (-79)).then (compare m mMargin)) == some .lt) = true at hmargin
      change ¬ (some ((compare (-52) e).then (compare (2 ^ 52) m))).any (·.isLE) = true at hone
      -- The exponents alone bound the number from below by the margin, and from above by one.
      have hlow : -79 ≤ e := by
        by_contra hlt
        apply hmargin
        rw [Int.compare_eq_lt.mpr (by omega)]
        rfl
      have hhigh : e ≤ -52 := by
        by_contra hlt
        apply hone
        rw [Int.compare_eq_lt.mpr (by omega)]
        rfl
      exact add_bounded hm hpos (mantissa_lt_of_unpack hp) hlt ⟨hlow, hhigh⟩ (by decide)

/-- The Newton steps end at their start or at a value that was cut off on both sides. -/
theorem newton_induction {α : Type} [Scalar α] {P : α → Prop} {p : α}
    (hstep : ∀ a, P (Scalar.min (Scalar.max a (p + margin)) (1 - margin))) (budget : α)
    (steps : Nat) {q : α} (hq : P q) : P (newton budget p steps q) := by
  induction steps generalizing q with
  | zero => exact hq
  | succ steps ih =>
    unfold newton
    dsimp only
    split
    · exact hq
    · exact ih (hstep _)

theorem floatRank_newton_lt (budget p : Float) (steps : Nat) {q : Float}
    (hq : floatRank q < floatRank (1 / 0)) :
    floatRank (newton budget p steps q) < floatRank (1 / 0) := by
  apply newton_induction (P := fun q => floatRank q < floatRank (1 / 0)) _ budget steps hq
  intro a
  generalize Scalar.max a (p + margin) = next
  -- The clamp answers the upper limit or a value that is not above it.
  unfold Scalar.min
  split
  · decide
  · next hle =>
    split
    · next hself => exact floatRank_lt_of_not_lt hself (by decide) hle
    · decide

/-- The bound of a path ranks below infinity, whatever was measured. -/
theorem floatRank_upper_lt (gain : Float) (visits total : Nat) :
    floatRank (upper gain visits total) < floatRank (1 / 0) := by
  unfold upper
  dsimp only
  generalize hp : Scalar.max (gain / (visits : Float)) margin = p
  split
  · decide
  · next hone =>
    apply floatRank_newton_lt
    have hself : (p == p) = true ∧ ¬ p < margin := by
      rw [← hp]
      unfold Scalar.max
      split
      · exact ⟨by decide, by decide⟩
      · next hle =>
        split
        · next hself => exact ⟨hself, hle⟩
        · exact ⟨by decide, by decide⟩
    exact floatRank_add_margin_lt hself.1 hself.2 hone

/-- The index as a number: that of an untried path is infinity. -/
def number : KlIndex Float → Float
  | .untried => 1 / 0
  | .bound q => q

theorem le_of_eq_totalLe (gain gain' : Float) (visits visits' total : Nat) :
    (KlIndex.of gain visits total).le (KlIndex.of gain' visits' total) =
      Scalar.totalLe (KlIndex.of gain visits total).number
        (KlIndex.of gain' visits' total).number := by
  have hlt := floatRank_upper_lt gain visits total
  have hlt' := floatRank_upper_lt gain' visits' total
  unfold KlIndex.of
  split
  · split
    · rfl
    · exact (decide_eq_false (Int.not_le.mpr hlt')).symm
  · split
    · exact (decide_eq_true (Int.le_of_lt hlt)).symm
    · rfl

end KlIndex

/-- Rankings of values that are in the same order. -/
theorem ranking_map {κ κ' : Type} {le : κ → κ → Bool} {le' : κ' → κ' → Bool} {f : κ → κ'}
    {values : List κ} (h : ∀ a ∈ values, ∀ b ∈ values, le a b = le' (f a) (f b)) :
    ranking le' (values.map f) = ranking le values := by
  have hsorted : (values.zipIdx.mergeSort fun a b => le a.1 b.1).map (Prod.map f id) =
      (values.zipIdx.map (Prod.map f id)).mergeSort fun a b => le' a.1 b.1 := by
    apply List.map_mergeSort
    intro a ha b hb
    exact h a.1 (List.fst_mem_of_mem_zipIdx ha) b.1 (List.fst_mem_of_mem_zipIdx hb)
  unfold ranking
  rw [List.zipIdx_map, ← hsorted, List.map_map]
  rfl

theorem KlUcb.topIndices_number (p : KlUcb Float) (m : Nat) :
    topIndices KlIndex.le p.indices m =
      topIndices Scalar.totalLe (p.indices.map KlIndex.number) m := by
  unfold topIndices firstIndices
  rw [ranking_map]
  intro a ha b hb
  obtain ⟨t, -, rfl⟩ := List.mem_map.mp ha
  obtain ⟨t', -, rfl⟩ := List.mem_map.mp hb
  exact KlIndex.le_of_eq_totalLe _ _ _ _ _

end PathSelection
