import Mathlib.Data.List.GetD
import PathSelection.Policy.KlUcb
import PathSelection.Proofs.Policy
import PathSelection.Proofs.Ranking

namespace PathSelection

section Index

variable {α : Type} [Scalar α]

theorem KlIndex.le_untried (a : KlIndex α) : a.le .untried = true := by
  cases a <;> rfl

theorem KlIndex.le_trans
    (htrans : ∀ a b c : α, Scalar.totalLe a b = true → Scalar.totalLe b c = true →
      Scalar.totalLe a c = true) (a b c : KlIndex α) (hab : a.le b = true) (hbc : b.le c = true) :
    a.le c = true := by
  cases c with
  | untried => exact a.le_untried
  | bound r =>
    cases b with
    | untried => exact absurd hbc Bool.false_ne_true
    | bound q =>
      cases a with
      | untried => exact absurd hab Bool.false_ne_true
      | bound p => exact htrans p q r hab hbc

theorem KlIndex.le_total
    (htotal : ∀ a b : α, (Scalar.totalLe a b || Scalar.totalLe b a) = true) (a b : KlIndex α) :
    (a.le b || b.le a) = true := by
  cases a with
  | untried => cases b <;> rfl
  | bound p =>
    cases b with
    | untried => rfl
    | bound q => exact htotal p q

end Index

/-- A list in which no entry with a property comes after one without it. -/
theorem filter_append_of_pairwise {l : List Nat} {q : Nat → Bool}
    (h : l.Pairwise fun i j => q j = true → q i = true) :
    l.filter q ++ l.filter (fun i => !q i) = l := by
  induction l with
  | nil => rfl
  | cons i l ih =>
    obtain ⟨hfirst, hrest⟩ := List.pairwise_cons.mp h
    cases hi : q i with
    | true =>
      rw [List.filter_cons_of_pos hi, List.filter_cons_of_neg (by simp [hi]), List.cons_append,
        ih hrest]
    | false =>
      have hnone : ∀ j ∈ l, q j = false := fun j hj =>
        Bool.eq_false_iff.mpr fun hq => absurd (hfirst j hj hq) (by simp [hi])
      rw [List.filter_eq_nil_iff.mpr, List.filter_eq_self.mpr, List.nil_append]
      · intro j hj
        rcases List.mem_cons.mp hj with rfl | hj
        · rw [hi]; rfl
        · rw [hnone j hj]; rfl
      · intro j hj
        rcases List.mem_cons.mp hj with rfl | hj
        · simp [hi]
        · simp [hnone j hj]

namespace KlUcb

variable {α : Type} [Scalar α] {p : KlUcb α} {m i : Nat}

/-- How often a path was visited. -/
def visits (p : KlUcb α) (i : Nat) : Nat := ((p.tallies.map Tally.visits)[i]?).getD 0

/-- The paths that were not visited yet, in ascending order. -/
def untried (p : KlUcb α) : List Nat :=
  (List.range p.tallies.length).filter fun i => p.visits i == 0

omit [Scalar α] in
theorem mem_untried : i ∈ p.untried ↔ i < p.tallies.length ∧ p.visits i = 0 := by
  unfold untried
  rw [List.mem_filter, List.mem_range, beq_iff_eq]

theorem length_new (paths : Nat) (leader : Bool) :
    (new paths leader : KlUcb α).tallies.length = paths := List.length_replicate

theorem length_indices (p : KlUcb α) : p.indices.length = p.tallies.length :=
  List.length_map _

theorem getElem_indices (hi : i < p.indices.length) :
    p.indices[i] = .untried ↔ p.visits i = 0 := by
  have hi' : i < p.tallies.length := p.length_indices ▸ hi
  have hvisits : p.visits i = p.tallies[i].visits := by
    unfold visits
    rw [List.getElem?_map, List.getElem?_eq_getElem hi']
    rfl
  unfold indices at hi ⊢
  rw [List.getElem_map, hvisits]
  unfold KlIndex.of
  split
  · next h => exact iff_of_true rfl h
  · next h => exact iff_of_false (by simp) h

/-- The order of the largest indices. -/
theorem ranking_indices
    (htrans : ∀ a b c : α, Scalar.totalLe a b = true → Scalar.totalLe b c = true →
      Scalar.totalLe a c = true)
    (htotal : ∀ a b : α, (Scalar.totalLe a b || Scalar.totalLe b a) = true) (p : KlUcb α) :
    ∃ tried, ranking (fun a b => KlIndex.le b a) p.indices = p.untried ++ tried ∧
      ∀ i ∈ tried, i < p.tallies.length ∧ p.visits i ≠ 0 := by
  let q : Nat → Bool := fun i => p.visits i == 0
  let order := ranking (fun a b => KlIndex.le b a) p.indices
  have hperm : order.Perm (List.range p.tallies.length) :=
    p.length_indices ▸ ranking_perm (fun a b => KlIndex.le b a) p.indices
  have hsorted : order.Pairwise (Precedes (fun a b => KlIndex.le b a) p.indices) :=
    pairwise_ranking (fun a b c hab hbc => KlIndex.le_trans htrans c b a hbc hab)
      (fun a b => KlIndex.le_total htotal b a) p.indices
  -- An untried path is never ranked after a tried one.
  have hfirst : order.Pairwise fun i j => q j = true → q i = true := by
    refine hsorted.imp ?_
    rintro i j ⟨hi, hj, hle, -⟩ hq
    have huntried := (getElem_indices hj).mpr (beq_iff_eq.mp hq)
    rw [huntried] at hle
    refine beq_iff_eq.mpr ((getElem_indices hi).mp ?_)
    cases hindex : p.indices[i] with
    | untried => rfl
    | bound r =>
      rw [hindex] at hle
      exact absurd hle Bool.false_ne_true
  -- Among themselves the untried paths are ranked by their numbers.
  have huntried : order.filter q = p.untried := by
    have hfirst : (order.filter q).Pairwise (· < ·) := by
      rw [List.pairwise_filter]
      refine hsorted.imp ?_
      rintro i j ⟨hi, hj, hle, htie⟩ hqi hqj
      apply htie
      have huntried := (getElem_indices hj).mpr (beq_iff_eq.mp hqj)
      rw [huntried]
      exact p.indices[i].le_untried
    have hsecond : p.untried.Pairwise (· < ·) := List.pairwise_lt_range.filter _
    apply List.Perm.eq_of_pairwise _ hfirst hsecond (hperm.filter q)
    intro i j _ _ hij hji
    omega
  refine ⟨order.filter fun i => !q i, ?_, fun i hi => ?_⟩
  · rw [← huntried]
    exact (filter_append_of_pairwise hfirst).symm
  · obtain ⟨hmem, hq⟩ := List.mem_filter.mp hi
    refine ⟨List.mem_range.mp (hperm.mem_iff.mp hmem), ?_⟩
    simpa [q] using hq

section Decision

/-- The paths that a decision for `m` of them selects. -/
def chosen (m : Nat) (p : KlUcb α) : List Nat :=
  if p.leader ∧ m ≠ 0 then
    let leaders := topIndices Scalar.totalLe p.smoothedMeans (m - 1)
    leaders ++ [p.challenger m leaders]
  else topIndices KlIndex.le p.indices m

variable
  (htrans : ∀ a b c : α, Scalar.totalLe a b = true → Scalar.totalLe b c = true →
    Scalar.totalLe a c = true)
  (htotal : ∀ a b : α, (Scalar.totalLe a b || Scalar.totalLe b a) = true)

include htrans htotal in
theorem topIndices_indices (p : KlUcb α) (m : Nat) :
    ∃ tried, topIndices KlIndex.le p.indices m = p.untried.take m ++ tried ∧
      ∀ i ∈ tried, i < p.tallies.length ∧ p.visits i ≠ 0 := by
  obtain ⟨tried, horder, htried⟩ := p.ranking_indices htrans htotal
  refine ⟨tried.take (m - p.untried.length), ?_, fun i hi => htried i (List.mem_of_mem_take hi)⟩
  unfold topIndices firstIndices
  rw [horder, List.take_append]

theorem decide_eq (hm : m ≤ p.tallies.length) :
    ∃ selection, p.decide m = (.ok selection, p) ∧ selection.paths = p.chosen m := by
  unfold decide checkPlays chosen
  rw [if_neg (Nat.not_lt.mpr hm)]
  dsimp only
  split
  · next h => exact ⟨_, rfl, rfl⟩
  · next h => exact ⟨_, rfl, rfl⟩

theorem paths_eq {selection : Selection α} (h : p.decide m = (.ok selection, p))
    (hm : m ≤ p.tallies.length) : selection.paths = p.chosen m := by
  obtain ⟨selection', hdecide, hpaths⟩ := decide_eq hm
  have heq : selection' = selection :=
    Except.ok.inj (congrArg Prod.fst (hdecide.symm.trans h))
  exact heq ▸ hpaths

omit htrans htotal in
/-- Less than `m` leaders leave a challenger. -/
theorem find?_challenger {leaders : List Nat} (hlength : leaders.length < m)
    (hm : m ≤ p.tallies.length) :
    (topIndices KlIndex.le p.indices m).find? (fun i => !leaders.contains i) =
        some (p.challenger m leaders) ∧
      p.challenger m leaders ∉ leaders ∧ p.challenger m leaders < p.tallies.length := by
  have hvalues : m ≤ p.indices.length := p.length_indices.symm ▸ hm
  obtain ⟨best, hfind, hnot, hlt⟩ :=
    exists_find?_firstIndices (fun a b => KlIndex.le b a) hlength hvalues
  have hbest : p.challenger m leaders = best := by
    unfold challenger topIndices
    rw [hfind, Option.getD_some]
  rw [hbest]
  exact ⟨hfind, hnot, p.length_indices ▸ hlt⟩

theorem selects {selection : Selection α} (h : p.decide m = (.ok selection, p))
    (hm : m ≤ p.tallies.length) : Selects m p.tallies.length selection.paths := by
  rw [paths_eq h hm]
  unfold chosen
  split
  · next hleader =>
    let leaders := topIndices Scalar.totalLe p.smoothedMeans (m - 1)
    have hmeans : p.smoothedMeans.length = p.tallies.length := List.length_map _
    have hlength : leaders.length = m - 1 := by
      calc leaders.length = min (m - 1) p.smoothedMeans.length := length_firstIndices _ _ (m - 1)
        _ = m - 1 := by omega
    obtain ⟨-, hnot, hlt⟩ := find?_challenger (show leaders.length < m by omega) hm
    refine ⟨?_, ?_, fun i hi => ?_⟩
    · rw [List.length_append, hlength, List.length_singleton]
      omega
    · rw [List.nodup_append_comm]
      exact List.nodup_cons.mpr ⟨hnot, firstIndices_nodup _ _ _⟩
    · rcases List.mem_append.mp hi with hi | hi
      · exact hmeans ▸ lt_of_mem_firstIndices _ _ _ hi
      · rw [List.mem_singleton.mp hi]
        exact hlt
  · refine ⟨?_, firstIndices_nodup _ _ _, fun i hi => ?_⟩
    · rw [topIndices, length_firstIndices, length_indices, Nat.min_eq_left hm]
    · exact p.length_indices ▸ lt_of_mem_firstIndices _ _ _ hi

include htrans htotal

/-- The challenger is an untried path, if there is one that is no leader. -/
theorem challenger_mem_untried {leaders : List Nat}
    (h : ∃ i ∈ p.untried.take m, i ∉ leaders) : p.challenger m leaders ∈ p.untried := by
  obtain ⟨tried, htop, -⟩ := p.topIndices_indices htrans htotal m
  obtain ⟨i, hi, hnot⟩ := h
  unfold challenger
  rw [htop, List.find?_append]
  cases hfind : (p.untried.take m).find? fun i => !leaders.contains i with
  | none =>
    have hleader := List.find?_eq_none.mp hfind i hi
    exact absurd hnot (by simpa using hleader)
  | some c => exact List.mem_of_mem_take (List.mem_of_find?_eq_some hfind)

/-- As long as there are untried paths, one of them is selected. -/
theorem exists_untried_mem {selection : Selection α} (h : p.decide m = (.ok selection, p))
    (hpos : 1 ≤ m) (hm : m ≤ p.tallies.length) (hne : p.untried ≠ []) :
    ∃ i ∈ selection.paths, i ∈ p.untried := by
  obtain ⟨i, rest, huntried⟩ := List.exists_cons_of_ne_nil hne
  have hi : i ∈ p.untried := huntried ▸ List.mem_cons_self
  have htake : i ∈ p.untried.take m := by
    rw [huntried, List.take_cons hpos]
    exact List.mem_cons_self
  rw [paths_eq h hm]
  unfold chosen
  split
  · -- Either the first untried path is itself a leader, or the challenger is untried.
    by_cases hleader : i ∈ topIndices Scalar.totalLe p.smoothedMeans (m - 1)
    · exact ⟨i, List.mem_append_left _ hleader, hi⟩
    · exact ⟨_, List.mem_append_right _ (List.mem_singleton_self _),
        challenger_mem_untried htrans htotal ⟨i, htake, hleader⟩⟩
  · obtain ⟨tried, htop, -⟩ := p.topIndices_indices htrans htotal m
    rw [htop]
    exact ⟨i, List.mem_append_left _ htake, hi⟩

end Decision

section Update

theorem visits_foldl_learn (entries : List (Nat × Metric α)) (tallies : List (Tally α))
    (hi : i < tallies.length) :
    (((entries.foldl learn tallies).map Tally.visits)[i]?).getD 0 =
      ((tallies.map Tally.visits)[i]?).getD 0 + (entries.map Prod.fst).count i := by
  induction entries generalizing tallies with
  | nil => rfl
  | cons entry entries ih =>
    have hlearn : i < (learn tallies entry).length := (List.length_modify _ _ _).symm ▸ hi
    have hstep : (((learn tallies entry).map Tally.visits)[i]?).getD 0 =
        ((tallies.map Tally.visits)[i]?).getD 0 + if entry.1 = i then 1 else 0 := by
      unfold learn
      rw [List.getElem?_map, List.getElem?_map, List.getElem?_modify, List.getElem?_eq_getElem hi]
      by_cases heq : entry.1 = i <;> simp [heq]
    rw [List.foldl_cons, ih (learn tallies entry) hlearn, hstep, List.map_cons, List.count_cons]
    simp only [beq_iff_eq]
    omega

/-- Valid feedback is accepted, and it counts as one more visit for each time a path is selected. -/
theorem update_eq {selected : List Nat} {measurements : List (Metric α)}
    (hlength : selected.length = measurements.length)
    (hlt : ∀ i ∈ selected, i < p.tallies.length) :
    ∃ p' : KlUcb α, p.update selected measurements = (.ok (), p') ∧
      p'.tallies.length = p.tallies.length ∧ p'.leader = p.leader ∧
      ∀ i < p.tallies.length, p'.visits i = p.visits i + selected.count i := by
  have hcheck : checkFeedback p.tallies.length selected measurements = .ok () :=
    checkFeedback_eq_ok.mpr ⟨hlength, hlt⟩
  refine ⟨{ p with tallies := (selected.zip measurements).foldl learn p.tallies }, ?_, ?_, rfl, ?_⟩
  · unfold update
    rw [hcheck]
  · exact length_foldl_modify _ _ _ _
  · intro i hi
    have hvisits := visits_foldl_learn (selected.zip measurements) p.tallies hi
    rw [List.map_fst_zip (Nat.le_of_eq hlength)] at hvisits
    exact hvisits

end Update

/-- KL-UCB can be relied on in every mode, whatever it has learned. -/
theorem reliable (mode : RoundMode) {k : Nat} (hm : m ≤ k) :
    Reliable mode m k fun p : KlUcb α => p.tallies.length = k where
  decides p hp := by
    obtain ⟨selection, hdecide, -⟩ := p.decide_eq (hp.symm ▸ hm)
    refine ⟨selection, p, ?_, hp ▸ selects hdecide (hp.symm ▸ hm), hp⟩
    cases mode <;> exact hdecide
  learns p selected metrics hp hlength hlt := by
    obtain ⟨p', hupdate, htallies, -, -⟩ := update_eq hlength (hp.symm ▸ hlt)
    refine ⟨p', ?_, htallies.trans hp⟩
    cases mode <;> exact hupdate

end KlUcb

end PathSelection
