import PathSelection.Proofs.KlUcb.Bounds
import PathSelection.Proofs.KlUcb.Visits

namespace PathSelection

/-- What is left of a list without its first entries. -/
theorem filter_notMem_take {l : List Nat} (h : l.Nodup) (m : Nat) :
    l.filter (fun i => i ∉ l.take m) = l.drop m := by
  have hdisjoint : (l.take m).Disjoint (l.drop m) := by
    apply List.disjoint_of_nodup_append
    rwa [List.take_append_drop]
  have hfirst : (l.take m).filter (fun i => i ∉ l.take m) = [] := by
    apply List.filter_eq_nil_iff.mpr
    intro i hi
    simpa using hi
  have hrest : (l.drop m).filter (fun i => i ∉ l.take m) = l.drop m := by
    apply List.filter_eq_self.mpr
    intro i hi
    simpa using fun htake => hdisjoint htake hi
  calc l.filter (fun i => i ∉ l.take m)
      = (l.take m ++ l.drop m).filter (fun i => i ∉ l.take m) := by rw [List.take_append_drop]
    _ = l.drop m := by rw [List.filter_append, hfirst, hrest, List.nil_append]

namespace KlUcb

variable {α : Type} [Scalar α] {p p' : KlUcb α} {m : Nat} {metrics : List (Metric α)}
  {selection : Selection α}

/-- One round: a decision for `m` paths, and the update with measurements of them. -/
def play (m : Nat) (metrics : List (Metric α)) (p : KlUcb α) : KlUcb α :=
  match p.decide m with
  | (.ok selection, p) => (p.update selection.paths metrics).2
  | (.error _, p) => p

/-- The state after the given number of rounds, with the measurements of each round. -/
def playAll (m : Nat) (feedback : Nat → List (Metric α)) (p : KlUcb α) : Nat → KlUcb α
  | 0 => p
  | round + 1 => (playAll m feedback p round).play m (feedback round)

/-- What a round does whose decision and update succeed. -/
structure Played (m : Nat) (metrics : List (Metric α)) (p : KlUcb α) (selection : Selection α)
    (p' : KlUcb α) : Prop where
  decides : p.decide m = (.ok selection, p)
  updates : p.update selection.paths metrics = (.ok (), p')
  selects : Selects m p.tallies.length selection.paths
  length_tallies : p'.tallies.length = p.tallies.length
  leader_eq : p'.leader = p.leader
  visits_eq : ∀ i < p.tallies.length, p'.visits i = p.visits i + selection.paths.count i

theorem play_played (hm : m ≤ p.tallies.length) (hlength : metrics.length = m) :
    ∃ selection, Played m metrics p selection (p.play m metrics) := by
  obtain ⟨selection, hdecide, -⟩ := p.decide_eq hm
  have hselects := selects hdecide hm
  obtain ⟨p', hupdate, htallies, hleader, hvisits⟩ :=
    update_eq (hselects.length_eq.trans hlength.symm) hselects.lt
  have hplay : p.play m metrics = p' := by
    unfold play
    rw [hdecide]
    exact congrArg Prod.snd hupdate
  rw [hplay]
  exact ⟨selection, hdecide, hupdate, hselects, htallies, hleader, hvisits⟩

theorem Played.untried_eq (h : Played m metrics p selection p') :
    p'.untried = p.untried.filter fun i => i ∉ selection.paths := by
  unfold untried
  rw [h.length_tallies, List.filter_filter]
  apply List.filter_congr
  intro i hi
  rw [h.visits_eq i (List.mem_range.mp hi), Bool.eq_iff_iff, Bool.and_eq_true, beq_iff_eq,
    beq_iff_eq, decide_eq_true_iff, Nat.add_eq_zero_iff, List.count_eq_zero, and_comm]

section Order

variable
  (htrans : ∀ a b c : α, Scalar.totalLe a b = true → Scalar.totalLe b c = true →
    Scalar.totalLe a c = true)
  (htotal : ∀ a b : α, (Scalar.totalLe a b || Scalar.totalLe b a) = true)

include htrans htotal

theorem Played.exists_visited (h : Played m metrics p selection p') (hpos : 1 ≤ m)
    (hm : m ≤ p.tallies.length) (hne : p.untried ≠ []) :
    ∃ i ∈ selection.paths, i ∈ p.untried ∧ i ∉ p'.untried := by
  obtain ⟨i, hi, huntried⟩ := exists_untried_mem htrans htotal h.decides hpos hm hne
  refine ⟨i, hi, huntried, ?_⟩
  rw [h.untried_eq]
  simp [hi]

/-- The basic mode takes the first untried paths, and others only when there are no more. -/
theorem Played.basic (h : Played m metrics p selection p') (hm : m ≤ p.tallies.length)
    (hbasic : p.leader = false) :
    ∃ tried, selection.paths = p.untried.take m ++ tried ∧
      (∀ i ∈ tried, 0 < p.visits i) ∧ p'.untried = p.untried.drop m ∧
      (tried ≠ [] → p'.untried = []) := by
  obtain ⟨tried, htop, htried⟩ := p.topIndices_indices htrans htotal m
  have heq : selection.paths = p.untried.take m ++ tried := by
    rw [paths_eq h.decides hm, chosen, if_neg (by simp [hbasic]), htop]
  have hdrop : p'.untried = p.untried.drop m := by
    calc p'.untried = p.untried.filter fun i => i ∉ selection.paths := h.untried_eq
      _ = p.untried.filter fun i => i ∉ p.untried.take m := by
        apply List.filter_congr
        intro i hi
        have hnot : i ∉ tried := fun hmem => (htried i hmem).2 (mem_untried.mp hi).2
        simp [heq, hnot]
      _ = p.untried.drop m := filter_notMem_take (List.nodup_range.filter _) m
  refine ⟨tried, heq, fun i hi => Nat.pos_of_ne_zero (htried i hi).2, hdrop, fun hne => ?_⟩
  -- There are `m` entries in all, so that a tried one leaves no place for all the others.
  have hlength := h.selects.length_eq
  have hpos : 0 < tried.length := List.length_pos_iff.mpr hne
  rw [heq, List.length_append, List.length_take] at hlength
  rw [hdrop]
  exact List.drop_eq_nil_of_le (by omega)

end Order

section Run

variable {feedback : Nat → List (Metric α)}

omit [Scalar α] in
theorem untried_eq_range (hvisits : ∀ i < p.tallies.length, p.visits i = 0) :
    p.untried = List.range p.tallies.length := by
  unfold untried
  apply List.filter_eq_self.mpr
  intro i hi
  exact beq_iff_eq.mpr (hvisits i (List.mem_range.mp hi))

theorem untried_new (paths : Nat) (leader : Bool) :
    (new paths leader : KlUcb α).untried = List.range paths := by
  rw [untried_eq_range, length_new]
  intro i hi
  rw [length_new] at hi
  simp [visits, new, hi]

theorem playAll_played (hm : m ≤ p.tallies.length) (hlength : ∀ round, (feedback round).length = m)
    (round : Nat) :
    (playAll m feedback p round).tallies.length = p.tallies.length ∧
      (playAll m feedback p round).leader = p.leader ∧
      ∃ selection, Played m (feedback round) (playAll m feedback p round) selection
        (playAll m feedback p (round + 1)) := by
  induction round with
  | zero => exact ⟨rfl, rfl, play_played hm (hlength 0)⟩
  | succ round ih =>
    obtain ⟨htallies, hleader, selection, hplayed⟩ := ih
    have htallies' := hplayed.length_tallies.trans htallies
    exact ⟨htallies', hplayed.leader_eq.trans hleader,
      play_played (htallies'.symm ▸ hm) (hlength (round + 1))⟩

omit [Scalar α] in
/-- The number of paths that were visited. -/
theorem length_visited {k : Nat} (huntried : p.untried = (List.range p.tallies.length).drop k) :
    ((List.range p.tallies.length).filter fun i => 0 < p.visits i).length =
      min p.tallies.length k := by
  have hsplit := List.length_eq_length_filter_add (l := List.range p.tallies.length)
    fun i => p.visits i == 0
  have hvisited : (List.range p.tallies.length).filter (fun i => !(p.visits i == 0)) =
      (List.range p.tallies.length).filter fun i => 0 < p.visits i := by
    apply List.filter_congr
    intro i _
    rw [Bool.eq_iff_iff, Bool.not_eq_true', beq_eq_false_iff_ne, decide_eq_true_iff,
      Nat.pos_iff_ne_zero]
  have hcount : p.untried.length = p.tallies.length - k := by
    rw [huntried, List.length_drop, List.length_range]
  rw [hvisited, List.length_range] at hsplit
  unfold untried at hcount
  omega

theorem untried_playAll
    (htrans : ∀ a b c : α, Scalar.totalLe a b = true → Scalar.totalLe b c = true →
      Scalar.totalLe a c = true)
    (htotal : ∀ a b : α, (Scalar.totalLe a b || Scalar.totalLe b a) = true)
    (hm : m ≤ p.tallies.length) (hlength : ∀ round, (feedback round).length = m)
    (hbasic : p.leader = false) (round : Nat) :
    (playAll m feedback p round).untried = p.untried.drop (round * m) := by
  induction round with
  | zero =>
    rw [Nat.zero_mul]
    rfl
  | succ round ih =>
    obtain ⟨htallies, hleader, selection, hplayed⟩ := playAll_played hm hlength round
    obtain ⟨tried, -, -, hdrop, -⟩ :=
      hplayed.basic htrans htotal (htallies.symm ▸ hm) (hleader.trans hbasic)
    rw [hdrop, ih, List.drop_drop, Nat.succ_mul]

end Run

/-- Any round of KL-UCB, with any measurements before it. While some path is untried, the round
visits one of these; the basic mode takes the untried paths in ascending order, before all
others. -/
theorem playAll_explores {K m : Nat} (leader : Bool) {feedback : Nat → List (Metric Float)}
    (hpos : 1 ≤ m) (hm : m ≤ K) (hlength : ∀ round, (feedback round).length = m) (round : Nat) :
    let p := playAll m feedback (new K leader) round
    let p' := playAll m feedback (new K leader) (round + 1)
    ∃ selection, Played m (feedback round) p selection p' ∧ p.tallies.length = K ∧
      topIndices KlIndex.le p.indices m =
        topIndices Scalar.totalLe (p.indices.map KlIndex.number) m ∧
      (p.untried ≠ [] → ∃ i ∈ selection.paths, i ∈ p.untried ∧ i ∉ p'.untried) ∧
      (leader = false →
        (∃ tried, selection.paths = p.untried.take m ++ tried ∧ ∀ i ∈ tried, 0 < p.visits i) ∧
        ((List.range K).filter fun i => 0 < p.visits i).length = min K (round * m) ∧
        ∀ i < K, 0 < p.visits i → p.visits i < p'.visits i → p'.untried = []) := by
  intro p p'
  have hnew : (new K leader : KlUcb Float).tallies.length = K := length_new K leader
  obtain ⟨htallies, hleader, selection, hplayed⟩ :=
    playAll_played (p := new K leader) (hnew.symm ▸ hm) hlength round
  have hK : p.tallies.length = K := htallies.trans hnew
  have hm' : m ≤ p.tallies.length := hK.symm ▸ hm
  refine ⟨selection, hplayed, hK, p.topIndices_number m,
    hplayed.exists_visited floatTotalLe_trans floatTotalLe_total hpos hm', fun hbasic => ?_⟩
  obtain ⟨tried, hpaths, htried, hdrop, hlast⟩ :=
    hplayed.basic floatTotalLe_trans floatTotalLe_total hm' (hleader.trans hbasic)
  refine ⟨⟨tried, hpaths, htried⟩, ?_, ?_⟩
  · rw [← hK]
    apply length_visited
    rw [hK, ← untried_new (α := Float) K leader]
    exact untried_playAll floatTotalLe_trans floatTotalLe_total (hnew.symm ▸ hm) hlength hbasic
      round
  · intro i hi hvisited hagain
    have hcount : p'.visits i = p.visits i + selection.paths.count i :=
      hplayed.visits_eq i (hK.symm ▸ hi)
    have hmem : i ∈ selection.paths := List.count_pos_iff.mp (by omega)
    rw [hpaths] at hmem
    have hnot : i ∉ p.untried.take m := by
      intro htake
      have huntried := (mem_untried.mp (List.mem_of_mem_take htake)).2
      omega
    exact hlast (List.ne_nil_of_mem ((List.mem_append.mp hmem).resolve_left hnot))

/-- The first of two paths brings a bandwidth that is no number, the second an infinite one; after
that the third path is the only untried one, and the next round visits it. -/
theorem playAll_explores_wild :
    let feedback : Nat → List (Metric Float) := fun _ => [⟨0, 0 / 0, 0⟩, ⟨0, 1 / 0, 0⟩]
    let p := playAll 2 feedback (new 3 false) 1
    (∀ round, (feedback round).length = 2) ∧ p.untried = [2] ∧
      ∃ selection, Played 2 (feedback 1) p selection (playAll 2 feedback (new 3 false) 2) ∧
        2 ∈ selection.paths := by
  intro feedback p
  have hlength : ∀ round, (feedback round).length = 2 := fun _ => rfl
  have huntried : p.untried = [2] := by
    calc p.untried = (new 3 false : KlUcb Float).untried.drop (1 * 2) :=
          untried_playAll floatTotalLe_trans floatTotalLe_total (by decide) hlength rfl 1
      _ = [2] := by rw [untried_new]; rfl
  obtain ⟨selection, hplayed, -, -, hvisits, -⟩ :=
    playAll_explores false (show 1 ≤ 2 by decide) (show 2 ≤ 3 by decide) hlength 1
  obtain ⟨i, hi, hmem, -⟩ := hvisits (huntried ▸ List.cons_ne_nil 2 [])
  have hpath : i = 2 := by
    change i ∈ p.untried at hmem
    rw [huntried] at hmem
    exact List.mem_singleton.mp hmem
  exact ⟨hlength, huntried, selection, hplayed, hpath ▸ hi⟩

end KlUcb

end PathSelection
