import PathSelection.Proofs.Random.Sources
/-!
The reals with two infinities and a value that is no number, as a number type of this library:
floating point without rounding.
-/
namespace PathSelection

/-- A real number, an infinity, or the result of an operation that has none. -/
inductive Extended where
  | finite (x : ℝ)
  | infinite (negative : Bool)
  | undefined

namespace Extended

def add : Extended → Extended → Extended
  | finite x, finite y => finite (x + y)
  | infinite s, infinite t => if s = t then infinite s else undefined
  | infinite s, finite _ => infinite s
  | finite _, infinite s => infinite s
  | undefined, _ => undefined
  | _, undefined => undefined

def neg : Extended → Extended
  | finite x => finite (-x)
  | infinite s => infinite (!s)
  | undefined => undefined

noncomputable def mul : Extended → Extended → Extended
  | finite x, finite y => finite (x * y)
  | infinite s, infinite t => infinite (s != t)
  | infinite s, finite x => if x = 0 then undefined else infinite (s != decide (x < 0))
  | finite x, infinite s => if x = 0 then undefined else infinite (s != decide (x < 0))
  | undefined, _ => undefined
  | _, undefined => undefined

/-- The quotient. There is one zero, and as a divisor it counts as positive. -/
noncomputable def div : Extended → Extended → Extended
  | finite x, finite y =>
    if y = 0 then (if x = 0 then undefined else infinite (decide (x < 0))) else finite (x / y)
  | finite _, infinite _ => finite 0
  | infinite s, finite y => infinite (s != decide (y < 0))
  | infinite _, infinite _ => undefined
  | undefined, _ => undefined
  | _, undefined => undefined

/-- The order. What is no number is not even comparable with itself. -/
def le : Extended → Extended → Prop
  | undefined, _ => False
  | _, undefined => False
  | infinite true, _ => True
  | _, infinite false => True
  | finite x, finite y => x ≤ y
  | _, _ => False

noncomputable instance : DecidableRel le := Classical.decRel _

noncomputable def exp : Extended → Extended
  | finite x => finite (Real.exp x)
  | infinite true => finite 0
  | infinite false => infinite false
  | undefined => undefined

noncomputable def log : Extended → Extended
  | finite x => if 0 < x then finite (Real.log x) else if x = 0 then infinite true else undefined
  | infinite true => undefined
  | infinite false => infinite false
  | undefined => undefined

noncomputable instance : Scalar Extended where
  add := add
  sub a b := add a (neg b)
  mul := mul
  div := div
  neg := neg
  le := le
  lt a b := le a b ∧ ¬le b a
  beq a b := decide (le a b ∧ le b a)
  natCast n := finite n
  ofScientific m s e := finite (OfScientific.ofScientific m s e)
  decidableLt := inferInstanceAs (DecidableRel fun a b => le a b ∧ ¬le b a)
  decidableLe := inferInstanceAs (DecidableRel le)
  exp := exp
  log := log
  isFinite
    | finite _ => true
    | _ => false
  totalLe a b := decide (le a b) || b matches undefined

section Finite

variable {x y : ℝ}

theorem add_finite : finite x + finite y = finite (x + y) := rfl

theorem sub_finite : finite x - finite y = finite (x - y) :=
  congrArg finite (sub_eq_add_neg x y).symm

theorem mul_finite : finite x * finite y = finite (x * y) := rfl

theorem div_finite (hy : y ≠ 0) : finite x / finite y = finite (x / y) := if_neg hy

theorem le_finite : finite x ≤ finite y ↔ x ≤ y := Iff.rfl

theorem lt_finite : finite x < finite y ↔ x < y := lt_iff_le_not_ge.symm

theorem beq_finite : (finite x == finite y) = (x == y) := by
  have hle : (finite x == finite y) = true ↔ finite x ≤ finite y ∧ finite y ≤ finite x :=
    decide_eq_true_iff
  rw [Bool.eq_iff_iff, hle, le_finite, le_finite, beq_iff_eq]
  exact le_antisymm_iff.symm

theorem max_finite : Scalar.max (finite x) (finite y) = finite (Scalar.max x y) := by
  unfold Scalar.max
  simp only [lt_finite, beq_finite]
  split
  · rfl
  · split <;> rfl

theorem exp_finite : Scalar.exp (finite x) = finite (Scalar.exp x) := rfl

theorem log_finite (hx : 0 < x) : Scalar.log (finite x) = finite (Scalar.log x) := if_pos hx

theorem zero_finite : (Scalar.instOfNat 0 : OfNat Extended 0).ofNat = finite 0 :=
  congrArg finite Nat.cast_zero

theorem one_finite : (Scalar.instOfNat 1 : OfNat Extended 1).ofNat = finite 1 :=
  congrArg finite Nat.cast_one

theorem unit_finite : 0 ≤ finite x ∧ finite x < 1 ↔ 0 ≤ x ∧ x < 1 := by
  rw [zero_finite, one_finite, le_finite, lt_finite]

end Finite

theorem eq_finite_of_isFinite {a : Extended} (h : Scalar.isFinite a = true) :
    ∃ x, a = finite x := by
  cases a with
  | finite x => exact ⟨x, rfl⟩
  | infinite s => exact absurd h Bool.false_ne_true
  | undefined => exact absurd h Bool.false_ne_true

/-- A finite value divided by a positive one is finite, also if that one is infinite. -/
theorem div_finite_of_pos (x : ℝ) {b : Extended} (hb : 0 < b) :
    ∃ z, finite x / b = finite z := by
  rw [zero_finite] at hb
  cases b with
  | finite y => exact ⟨x / y, div_finite (lt_finite.mp hb).ne'⟩
  | infinite s => exact ⟨0, rfl⟩
  | undefined => exact absurd hb.1 id

/-- A source of real draws, taken as extended numbers. -/
structure Draws (ρ : Type) where
  source : ρ

instance {ρ : Type} [DrawSource ρ ℝ] : DrawSource (Draws ρ) Extended where
  uniform r := (finite (DrawSource.uniform r.source).1, ⟨(DrawSource.uniform r.source).2⟩)
  order n r := ((DrawSource.order n r.source).1, ⟨(DrawSource.order n r.source).2⟩)

/-- A tape has the numbers of all distributions on it, one after another. -/
instance : RandomSource (Draws Tape) Extended where
  subset _ m r := (r.source.order.take m, r)
  beta _ _ := DrawSource.uniform
  normal _ _ := DrawSource.uniform

/-- A tape on which there are only zeros. -/
def zeros : Draws Tape := ⟨⟨[], fun _ => 0⟩⟩

end Extended

end PathSelection
