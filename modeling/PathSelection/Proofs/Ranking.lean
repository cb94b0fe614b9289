import Mathlib.Data.List.Nodup
import Mathlib.Data.List.Perm.Subperm
import PathSelection.Ranking

namespace PathSelection

variable {κ : Type} {le : κ → κ → Bool} {values : List κ}

/-- Whether index `i` is ranked before index `j`. -/
def Precedes (le : κ → κ → Bool) (values : List κ) (i j : ℕ) : Prop :=
  ∃ (hi : i < values.length) (hj : j < values.length),
    le values[i] values[j] = true ∧ (le values[j] values[i] = true → i < j)

/-- The `m` indices that come first, one after another. -/
structure Leading (le : κ → κ → Bool) (values : List κ) (m : ℕ) (indices : List ℕ) : Prop where
  length_eq : indices.length = m
  lt_length : ∀ i ∈ indices, i < values.length
  ascending : indices.Pairwise (Precedes le values)
  precedes : ∀ i ∈ indices, ∀ j < values.length, j ∉ indices → Precedes le values i j

theorem Precedes.asymm {i j : ℕ} (h : Precedes le values i j) : ¬Precedes le values j i := by
  rintro ⟨_, _, hji, hback⟩
  obtain ⟨_, _, hij, hlt⟩ := h
  exact absurd (hlt hji) (Nat.lt_asymm (hback hij))

theorem Leading.nodup {m : ℕ} {indices : List ℕ} (h : Leading le values m indices) :
    indices.Nodup := by
  apply h.ascending.imp
  rintro i j hij rfl
  exact hij.asymm hij

theorem pairwise_ranking (htrans : ∀ a b c, le a b = true → le b c = true → le a c = true)
    (htotal : ∀ a b, (le a b || le b a) = true) (values : List κ) :
    (ranking le values).Pairwise (Precedes le values) := by
  let le' : κ × ℕ → κ × ℕ → Bool := fun x y => le x.1 y.1
  -- Sorting is stable, so that a tie is resolved by the position, which is the index itself.
  let numbered := values.zipIdx.zipIdx.mergeSort (List.zipIdxLE le')
  have hranking : ranking le values = (numbered.map fun x => x.1).map fun x => x.2 := by
    unfold ranking
    rw [← List.mergeSort_zipIdx]
  have hsorted : numbered.Pairwise fun x y => List.zipIdxLE le' x y = true :=
    List.pairwise_mergeSort (List.zipIdxLE_trans fun x y z => htrans x.1 y.1 z.1)
      (List.zipIdxLE_total fun x y => htotal x.1 y.1) _
  have hdistinct : numbered.Pairwise fun x y => x.1.2 ≠ y.1.2 := by
    have hnodup : (ranking le values).Nodup :=
      (ranking_perm le values).nodup_iff.mpr List.nodup_range
    rw [hranking, List.Nodup, List.pairwise_map, List.pairwise_map] at hnodup
    exact hnodup
  have hentry : ∀ x ∈ numbered, x.2 = x.1.2 ∧
      ∃ hx : x.1.2 < values.length, x.1.1 = values[x.1.2] := by
    intro x hx
    obtain ⟨hlt, hpair⟩ := List.mem_zipIdx' (List.mem_mergeSort.mp hx)
    rw [List.length_zipIdx] at hlt
    rw [List.getElem_zipIdx, Nat.zero_add] at hpair
    rw [hpair]
    exact ⟨rfl, hlt, rfl⟩
  rw [hranking, List.pairwise_map, List.pairwise_map]
  apply (hsorted.and hdistinct).imp_of_mem
  rintro x y hx hy ⟨hle, hne⟩
  obtain ⟨hxnumber, hxlt, hxvalue⟩ := hentry x hx
  obtain ⟨hynumber, hylt, hyvalue⟩ := hentry y hy
  refine ⟨hxlt, hylt, ?_⟩
  unfold List.zipIdxLE at hle
  rw [← hxvalue, ← hyvalue]
  split at hle
  · next hxy =>
    refine ⟨hxy, fun hyx => ?_⟩
    rw [if_pos hyx, decide_eq_true_iff] at hle
    omega
  · exact absurd hle Bool.false_ne_true

/-- A list in order is ranked as it stands. -/
theorem ranking_of_pairwise (h : values.Pairwise fun a b => le a b = true) :
    ranking le values = List.range values.length := by
  have hnumbered : values.zipIdx.Pairwise fun x y => le x.1 y.1 = true := by
    rw [← List.zipIdx_map_fst 0 values, List.pairwise_map] at h
    exact h
  unfold ranking
  rw [List.mergeSort_of_pairwise hnumbered, List.zipIdx_map_snd, List.range_eq_range']

theorem leading_firstIndices (htrans : ∀ a b c, le a b = true → le b c = true → le a c = true)
    (htotal : ∀ a b, (le a b || le b a) = true) {m : ℕ} (hm : m ≤ values.length) :
    Leading le values m (firstIndices le values m) := by
  have hsorted := pairwise_ranking htrans htotal values
  refine ⟨?_, fun i => lt_of_mem_firstIndices le values m, hsorted.sublist (List.take_sublist _ _),
    ?_⟩
  · rw [length_firstIndices, Nat.min_eq_left hm]
  · intro i hi j hj hnot
    have hmem : j ∈ ranking le values :=
      (ranking_perm le values).mem_iff.mpr (List.mem_range.mpr hj)
    rw [← List.take_append_drop m (ranking le values)] at hsorted hmem
    have hlast : j ∈ (ranking le values).drop m := (List.mem_append.mp hmem).resolve_left hnot
    exact (List.pairwise_append.mp hsorted).2.2 i hi j hlast

/-- There are no other indices than these that come first in this order. -/
theorem Leading.eq_firstIndices (htrans : ∀ a b c, le a b = true → le b c = true → le a c = true)
    (htotal : ∀ a b, (le a b || le b a) = true) {m : ℕ} {indices : List ℕ}
    (h : Leading le values m indices) : indices = firstIndices le values m := by
  have hsorted := pairwise_ranking htrans htotal values
  have hdistinct : (ranking le values).Nodup :=
    (ranking_perm le values).nodup_iff.mpr List.nodup_range
  have hmem : ∀ i, i ∈ ranking le values ↔ i < values.length := fun i => by
    rw [(ranking_perm le values).mem_iff, List.mem_range]
  -- What is left out, in the order of the ranking, completes the indices to the whole ranking.
  let left := (ranking le values).filter fun i => !indices.contains i
  have hleft : ∀ j ∈ left, j < values.length ∧ j ∉ indices := fun j hj => by
    obtain ⟨hj, hnot⟩ := List.mem_filter.mp hj
    exact ⟨(hmem j).mp hj, by simpa using hnot⟩
  have hperm : (indices ++ left).Perm (ranking le values) := by
    refine List.Perm.trans (.append_right left ?_) (List.filter_append_perm (indices.contains ·) _)
    apply (List.perm_ext_iff_of_nodup h.nodup (hdistinct.filter _)).mpr
    intro i
    rw [List.mem_filter, hmem, List.contains_iff_mem]
    exact ⟨fun hi => ⟨h.lt_length i hi, hi⟩, fun hi => hi.2⟩
  have hwhole : indices ++ left = ranking le values := by
    apply hperm.eq_of_pairwise (fun i j _ _ hij hji => absurd hji hij.asymm) _ hsorted
    exact List.pairwise_append.mpr ⟨h.ascending, hsorted.filter _, fun i hi j hj =>
      h.precedes i hi j (hleft j hj).1 (hleft j hj).2⟩
  calc indices
      = (indices ++ left).take indices.length := List.take_left.symm
    _ = firstIndices le values m := by rw [hwhole, h.length_eq, firstIndices]

section Left

variable {taken : List ℕ} {m : ℕ}

/-- Less than `m` taken indices leave one of the first `m`. -/
theorem exists_find?_firstIndices (le : κ → κ → Bool) (hlength : taken.length < m)
    (hm : m ≤ values.length) :
    ∃ best, (firstIndices le values m).find? (fun i => !taken.contains i) = some best ∧
      best ∉ taken ∧ best < values.length := by
  cases hfind : (firstIndices le values m).find? fun i => !taken.contains i with
  | none =>
    have hsubset : firstIndices le values m ⊆ taken := by
      intro i hi
      simpa using List.find?_eq_none.mp hfind i hi
    have hle : (firstIndices le values m).length ≤ taken.length :=
      (List.subperm_of_subset (firstIndices_nodup _ _ _) hsubset).length_le
    rw [length_firstIndices, Nat.min_eq_left hm] at hle
    omega
  | some best =>
    have hnot := List.find?_some hfind
    refine ⟨best, rfl, by simpa using hnot, ?_⟩
    exact lt_of_mem_firstIndices _ _ _ (List.mem_of_find?_eq_some hfind)

end Left

end PathSelection
