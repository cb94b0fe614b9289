import PathSelection.Error
import PathSelection.Random.Source
/-!
Dependent rounding: shares in the unit interval that sum to a natural number `l` become a set of
exactly `l` indices, in which an index occurs with a probability equal to its share. Each step takes
two undecided entries and moves mass between them until one of them is decided.
-/
namespace PathSelection.Rounding

variable {α : Type} [Scalar α]

/-- How far the sum of the shares may be from the number of indices. -/
def sumTolerance : α := 0.001

/-- An entry above this value is decided: its index is taken. -/
def upperEdge : α := 0.999

/-- An entry below this value is decided: its index is left out. -/
def lowerEdge : α := 0.001

/-- Whether an entry is not yet decided. -/
def isOpen (p : α) : Bool := !decide (upperEdge < p) && !decide (p < lowerEdge)

/-- The first undecided position of a visiting order, and what follows it. -/
def nextOpen (entries : List α) : List Nat → Option (Nat × List Nat)
  | [] => none
  | i :: later => if isOpen (entries.getD i 0) then some (i, later) else nextOpen entries later

/-- How much mass can move from `q` to `p` before one of them leaves the unit interval. -/
def room (p q : α) : α := Scalar.min (1 - p) q

/-- The entries at two positions after one step with the draw `u`. Mass moves up to the first entry
with a probability in proportion to the room in the other direction, so that each entry keeps its
mean. -/
def step (i j : Nat) (u : α) (entries : List α) : List α :=
  let p := entries.getD i 0
  let q := entries.getD j 0
  let up := room p q
  let down := Scalar.min p (1 - q)
  if u < down / (up + down) then (entries.set i (p + up)).set j (q - up)
  else (entries.set i (p - down)).set j (q + down)

/-- The entries after up to `fuel` steps, as long as two of them are undecided. A decided entry
stays as it is, so that its position is dropped from the order. -/
def settle {ρ : Type} (draw : ρ → α × ρ) : Nat → List Nat → List α → ρ → List α × ρ
  | 0, _, entries, rng => (entries, rng)
  | fuel + 1, order, entries, rng =>
    match nextOpen entries order with
    | none => (entries, rng)
    | some (i, later) =>
      match nextOpen entries later with
      | none => (entries, rng)
      | some (j, later) =>
        let (u, rng) := draw rng
        settle draw fuel (i :: j :: later) (step i j u entries) rng

/-- The indices that are taken in the end, in ascending order. An entry that is left undecided is
cut at one half, as are the decided ones. -/
def taken (entries : List α) : List Nat :=
  (List.range entries.length).filter fun i => decide (0.5 < entries.getD i 0)

/-- Whether the shares sum to `l`, up to the tolerance. -/
def sumFits (l : Nat) (shares : List α) : Bool :=
  let total := Scalar.sum shares
  Scalar.isFinite total && !decide (sumTolerance < Scalar.abs (total - (l : α)))

/-- The indices that result from a visiting order and the draws of `rng`. Each step decides at least
one entry, so there are fewer steps than entries. -/
def settled {ρ : Type} (draw : ρ → α × ρ) (order : List Nat) (shares : List α) (rng : ρ) :
    List Nat × ρ :=
  let (entries, rng) := settle draw shares.length order shares rng
  (taken entries, rng)

theorem length_settle {ρ : Type} (draw : ρ → α × ρ) (fuel : Nat)
    (order : List Nat) (entries : List α) (rng : ρ) :
    (settle draw fuel order entries rng).1.length = entries.length := by
  induction fuel generalizing order entries rng with
  | zero => rfl
  | succ fuel ih =>
    unfold settle
    split
    · rfl
    · split
      · rfl
      · rw [ih]
        unfold step
        dsimp only
        split <;> rw [List.length_set, List.length_set]

end PathSelection.Rounding

namespace PathSelection

/-- Rounds shares to a set of exactly `l` indices. The random order is drawn only when the sum of
the shares is right. -/
def dependentRounding {α ρ : Type} [Scalar α] [DrawSource ρ α] (l : Nat) (shares : List α)
    (rng : ρ) : Except (Error α) (List Nat) × ρ :=
  if Rounding.sumFits l shares then
    let (order, rng) := DrawSource.order shares.length rng
    let (indices, rng) := Rounding.settled DrawSource.uniform order shares rng
    if indices.length = l then (.ok indices, rng)
    else (.error (.roundingCardinality l indices.length), rng)
  else (.error (.probabilitySum l (Scalar.sum shares)), rng)

theorem dependentRounding_eq_ok {α ρ : Type} [Scalar α] [DrawSource ρ α] {l : Nat}
    {shares : List α} {rng : ρ} {selected : List Nat}
    (h : (dependentRounding l shares rng).1 = .ok selected) :
    selected.length = l ∧ selected.Nodup ∧ ∀ i ∈ selected, i < shares.length := by
  unfold dependentRounding at h
  split at h
  · dsimp only at h
    split at h
    · next hlength =>
      obtain rfl := Except.ok.inj h
      refine ⟨hlength, List.nodup_range.filter _, fun i hi => ?_⟩
      -- Only positions of the entries are taken, and there are as many entries as shares.
      have hlt := List.mem_range.mp (List.mem_filter.mp hi).1
      rw [Rounding.length_settle] at hlt
      exact hlt
    · exact absurd h (by simp)
  · exact absurd h (by simp)

end PathSelection
