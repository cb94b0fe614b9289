import PathSelection.Policy.Basic

namespace PathSelection

/-- What is learned path by path is learned about the same paths. -/
theorem length_foldl_modify {β γ : Type} (path : β → Nat) (learn : β → γ → γ) (entries : List β)
    (xs : List γ) :
    (entries.foldl (fun xs entry => xs.modify (path entry) (learn entry)) xs).length =
      xs.length := by
  apply List.foldlRecOn (motive := fun ys : List γ => ys.length = xs.length)
  · rfl
  · intro ys hys entry _
    exact (List.length_modify _ _ _).trans hys

/-- A selection of `m` different paths out of `k`. -/
structure Selects (m k : Nat) (paths : List Nat) : Prop where
  length_eq : paths.length = m
  nodup : paths.Nodup
  lt : ∀ i ∈ paths, i < k

/-- The states of a policy in which it decides for `m` of `k` paths and learns from every valid
feedback, and which it does not leave by that. -/
structure Reliable {π α : Type} [Scalar α] [PathPolicy π α] (mode : RoundMode) (m k : Nat)
    (valid : π → Prop) : Prop where
  decides : ∀ p, valid p → ∃ selection p',
    mode.decide m p = (.ok selection, p') ∧ Selects m k selection.paths ∧ valid p'
  learns : ∀ p selected metrics, valid p → selected.length = metrics.length →
    (∀ i ∈ selected, i < k) → ∃ p', mode.update selected metrics p = (.ok (), p') ∧ valid p'

end PathSelection
