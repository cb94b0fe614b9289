import PathSelection.Scalar

namespace PathSelection

variable {κ : Type}

/-- The indices of the values in the order `le`, equal values by ascending index. -/
def ranking (le : κ → κ → Bool) (values : List κ) : List Nat :=
  (values.zipIdx.mergeSort fun a b => le a.1 b.1).map (·.2)

/-- The indices of the `m` values that come first in the order `le`. -/
def firstIndices (le : κ → κ → Bool) (values : List κ) (m : Nat) : List Nat :=
  (ranking le values).take m

/-- The indices of the `m` largest values, in descending order of the values. -/
def topIndices (le : κ → κ → Bool) (values : List κ) (m : Nat) : List Nat :=
  firstIndices (fun a b => le b a) values m

/-- The indices of the `m` smallest values, in ascending order of the values. -/
def bottomIndices (le : κ → κ → Bool) (values : List κ) (m : Nat) : List Nat :=
  firstIndices le values m

theorem ranking_perm (le : κ → κ → Bool) (values : List κ) :
    (ranking le values).Perm (List.range values.length) := by
  have h := (List.mergeSort_perm values.zipIdx fun a b => le a.1 b.1).map (·.2)
  simpa [ranking, List.range_eq_range'] using h

theorem length_ranking (le : κ → κ → Bool) (values : List κ) :
    (ranking le values).length = values.length := by
  simpa using (ranking_perm le values).length_eq

theorem length_firstIndices (le : κ → κ → Bool) (values : List κ) (m : Nat) :
    (firstIndices le values m).length = min m values.length := by
  simp [firstIndices, length_ranking]

theorem firstIndices_nodup (le : κ → κ → Bool) (values : List κ) (m : Nat) :
    (firstIndices le values m).Nodup := by
  have h : (ranking le values).Nodup := (ranking_perm le values).nodup_iff.2 List.nodup_range
  exact h.sublist (List.take_sublist _ _)

theorem lt_of_mem_firstIndices (le : κ → κ → Bool) (values : List κ) (m : Nat) {i : Nat}
    (h : i ∈ firstIndices le values m) : i < values.length := by
  have h' := (ranking_perm le values).mem_iff.1 (List.mem_of_mem_take h)
  simpa using h'

theorem firstIndices_mono (le : κ → κ → Bool) (values : List κ) {m n : Nat} (h : m ≤ n) :
    firstIndices le values m <+: firstIndices le values n := by
  unfold firstIndices
  exact List.take_prefix_take_left h

end PathSelection
