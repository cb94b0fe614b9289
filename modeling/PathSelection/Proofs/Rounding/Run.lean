import PathSelection.Proofs.Rounding.Step

namespace PathSelection.Rounding

variable {ρ : Type} {entries : List ℝ} {order : List ℕ}

theorem nextOpen_cons (i : ℕ) (later : List ℕ) :
    nextOpen entries (i :: later) =
      if isOpen (entries.getD i 0) then some (i, later) else nextOpen entries later := by
  rw [nextOpen, Scalar.zero_real]

/-- The undecided positions in the order in which they are visited. -/
noncomputable def undecided (order : List ℕ) (entries : List ℝ) : List ℕ :=
  order.filter fun k => isOpen (entries.getD k 0)

theorem undecided_cons (k : ℕ) (later : List ℕ) (entries : List ℝ) :
    undecided (k :: later) entries =
      if isOpen (entries.getD k 0) then k :: undecided later entries
      else undecided later entries :=
  List.filter_cons

theorem mem_undecided {k : ℕ} :
    k ∈ undecided order entries ↔ k ∈ order ∧ isOpen (entries.getD k 0) = true :=
  List.mem_filter

theorem undecided_of_nextOpen_eq_none (h : nextOpen entries order = none) :
    undecided order entries = [] := by
  induction order with
  | nil => rfl
  | cons k later ih =>
    rw [nextOpen_cons] at h
    rw [undecided_cons]
    split at h
    · exact absurd h (Option.some_ne_none _)
    · next hk =>
      rw [if_neg hk]
      exact ih h

/-- The position that is found is the first undecided one, and only decided ones are passed by. -/
theorem undecided_of_nextOpen_eq_some {i : ℕ} {later : List ℕ}
    (h : nextOpen entries order = some (i, later)) :
    (i :: later).Sublist order ∧ undecided order entries = i :: undecided later entries := by
  induction order with
  | nil => simp [nextOpen] at h
  | cons k rest ih =>
    rw [nextOpen_cons] at h
    rw [undecided_cons]
    split at h
    · next hk =>
      obtain ⟨rfl, rfl⟩ := Prod.mk.inj (Option.some.inj h)
      exact ⟨.refl _, if_pos hk⟩
    · next hk =>
      obtain ⟨hsub, hrest⟩ := ih h
      rw [if_neg hk]
      exact ⟨hsub.cons k, hrest⟩

/-- The first pass of a run: either there are no two undecided positions and nothing happens, or a
step is made on the first two, which do not depend on the randomness. The run goes on with this pair
itself, as one of the two is still undecided after the step, and with what follows it. -/
theorem settle_succ (draw : ρ → ℝ × ρ) (fuel : ℕ) (visits : List ℕ) (entries : List ℝ) :
    ((undecided visits entries).length ≤ 1 ∧
      ∀ rng, settle draw (fuel + 1) visits entries rng = (entries, rng)) ∨
    ∃ i j rest later, undecided visits entries = i :: j :: rest ∧
      (i :: j :: later).Sublist visits ∧ undecided (i :: j :: later) entries = i :: j :: rest ∧
      ∀ rng, settle draw (fuel + 1) visits entries rng =
        settle draw fuel (i :: j :: later) (step i j (draw rng).1 entries) (draw rng).2 := by
  cases hi : nextOpen entries visits with
  | none =>
    refine Or.inl ⟨?_, fun rng => by rw [settle, hi]⟩
    rw [undecided_of_nextOpen_eq_none hi]
    exact Nat.zero_le 1
  | some found =>
    obtain ⟨i, others⟩ := found
    obtain ⟨hsub, hvisits⟩ := undecided_of_nextOpen_eq_some hi
    cases hj : nextOpen entries others with
    | none =>
      refine Or.inl ⟨?_, fun rng => by rw [settle, hi]; simp only [hj]⟩
      rw [hvisits, undecided_of_nextOpen_eq_none hj]
      exact le_rfl
    | some found' =>
      obtain ⟨j, later⟩ := found'
      obtain ⟨hsub', hothers⟩ := undecided_of_nextOpen_eq_some hj
      rw [hothers] at hvisits
      have hopen : ∀ k ∈ [i, j], isOpen (entries.getD k 0) = true := fun k hk => by
        have hmem : k ∈ undecided visits entries := hvisits ▸ List.mem_append_left _ hk
        exact (mem_undecided.mp hmem).2
      refine Or.inr ⟨i, j, undecided later entries, later, hvisits, (hsub'.cons_cons i).trans hsub,
        ?_, fun rng => by rw [settle, hi]; simp only [hj]⟩
      rw [undecided_cons, if_pos (hopen i List.mem_cons_self), undecided_cons,
        if_pos (hopen j (List.mem_cons_of_mem i List.mem_cons_self))]

/-- A visiting order that comes by every undecided position once. -/
structure Visits (order : List ℕ) (entries : List ℝ) : Prop where
  nodup : order.Nodup
  mem_of_isOpen : ∀ k, isOpen (entries.getD k 0) = true → k ∈ order

theorem Visits.of_perm (h : order.Perm (List.range entries.length)) : Visits order entries := by
  refine ⟨h.nodup_iff.mpr List.nodup_range, fun k hk => ?_⟩
  rw [h.mem_iff, List.mem_range]
  exact lt_length_of_isOpen hk

theorem Visits.step (hv : Visits order entries) {i j : ℕ} (h : OpenPair entries i j) (u : ℝ) :
    Visits order (step i j u entries) := by
  refine ⟨hv.nodup, fun k hk => hv.mem_of_isOpen k ?_⟩
  have hsub := (openPositions_step_ssubset h u).subset
  exact mem_openPositions.mp (hsub (mem_openPositions.mpr hk))

theorem openPair_of_undecided (hnodup : order.Nodup) {i j : ℕ} {rest : List ℕ}
    (hpair : undecided order entries = i :: j :: rest) : OpenPair entries i j := by
  have hdistinct : (undecided order entries).Nodup := hnodup.filter _
  have hopen : ∀ k ∈ undecided order entries, isOpen (entries.getD k 0) = true :=
    fun k hk => (mem_undecided.mp hk).2
  rw [hpair] at hdistinct hopen
  refine ⟨List.ne_of_not_mem_cons (List.nodup_cons.mp hdistinct).1, ?_, ?_⟩
  · exact hopen i List.mem_cons_self
  · exact hopen j (List.mem_cons_of_mem i List.mem_cons_self)

theorem Visits.toFinset_undecided (hv : Visits order entries) :
    (undecided order entries).toFinset = openPositions entries := by
  ext k
  rw [List.mem_toFinset, mem_undecided, mem_openPositions]
  exact ⟨And.right, fun hk => ⟨hv.mem_of_isOpen k hk, hk⟩⟩

/-- The first pass of a run on an order that comes by every undecided position. -/
theorem settle_succ_cases (hv : Visits order entries) (draw : ρ → ℝ × ρ) (fuel : ℕ) :
    ((openPositions entries).card ≤ 1 ∧
      ∀ rng, settle draw (fuel + 1) order entries rng = (entries, rng)) ∨
    ∃ i j later, OpenPair entries i j ∧ Visits (i :: j :: later) entries ∧
      ∀ rng, settle draw (fuel + 1) order entries rng =
        settle draw fuel (i :: j :: later) (step i j (draw rng).1 entries) (draw rng).2 := by
  rcases settle_succ draw fuel order entries with
    ⟨hlength, hend⟩ | ⟨i, j, rest, later, hpair, hsub, hlater, hnext⟩
  · refine Or.inl ⟨?_, hend⟩
    rw [← hv.toFinset_undecided]
    exact (List.toFinset_card_le _).trans hlength
  · refine Or.inr ⟨i, j, later, openPair_of_undecided hv.nodup hpair, ?_, hnext⟩
    refine ⟨hv.nodup.sublist hsub, fun k hk => ?_⟩
    have hmem : k ∈ undecided order entries := mem_undecided.mpr ⟨hv.mem_of_isOpen k hk, hk⟩
    rw [hpair, ← hlater] at hmem
    exact (mem_undecided.mp hmem).1

/-- What every step keeps, a run keeps. -/
theorem settle_induction {P : List ℝ → Prop}
    (hstep : ∀ entries i j u, OpenPair entries i j → P entries → P (step i j u entries))
    (hv : Visits order entries) (draw : ρ → ℝ × ρ) (fuel : ℕ) (rng : ρ) (h : P entries) :
    P (settle draw fuel order entries rng).1 := by
  induction fuel generalizing order entries rng with
  | zero => exact h
  | succ fuel ih =>
    rcases settle_succ_cases hv draw fuel with ⟨-, hend⟩ | ⟨i, j, later, hpair, hv', hnext⟩
    · rw [hend]
      exact h
    · rw [hnext]
      exact ih (hv'.step hpair _) _ (hstep entries i j _ hpair h)

/-- Entries of which no two are undecided stay as they are. -/
theorem settle_of_no_pair (hnone : ∀ i j, ¬ OpenPair entries i j) (hv : Visits order entries)
    (draw : ρ → ℝ × ρ) (fuel : ℕ) (rng : ρ) :
    (settle draw fuel order entries rng).1 = entries := by
  refine settle_induction (P := fun e => e = entries) ?_ hv draw fuel rng rfl
  intro later i j u hpair heq
  exact absurd (heq ▸ hpair) (hnone i j)

/-- A run with as many steps as there are undecided entries leaves at most one of them. -/
theorem card_openPositions_settle (hv : Visits order entries) (draw : ρ → ℝ × ρ) {fuel : ℕ}
    (hfuel : (openPositions entries).card ≤ fuel) (rng : ρ) :
    (openPositions (settle draw fuel order entries rng).1).card ≤ 1 := by
  induction fuel generalizing order entries rng with
  | zero => exact hfuel.trans (Nat.zero_le 1)
  | succ fuel ih =>
    rcases settle_succ_cases hv draw fuel with ⟨hend, hsame⟩ | ⟨i, j, later, hpair, hv', hnext⟩
    · rw [hsame]
      exact hend
    · rw [hnext]
      have hlt := Finset.card_lt_card (openPositions_step_ssubset hpair (draw rng).1)
      exact ih (hv'.step hpair _) (by omega) _

/-- What a run keeps of the entries that it starts from. -/
structure Balanced (shares entries : List ℝ) : Prop where
  length_eq : entries.length = shares.length
  sum_eq : entries.sum = shares.sum
  kept : ∀ k, isOpen (shares.getD k 0) = false → entries.getD k 0 = shares.getD k 0

theorem balanced_settle {shares : List ℝ} (hv : Visits order shares) (draw : ρ → ℝ × ρ)
    (fuel : ℕ) (rng : ρ) : Balanced shares (settle draw fuel order shares rng).1 := by
  refine settle_induction ?_ hv draw fuel rng ⟨rfl, rfl, fun _ _ => rfl⟩
  intro entries i j u hpair h
  refine ⟨(length_step hpair u).trans h.length_eq, (sum_step hpair u).trans h.sum_eq, ?_⟩
  intro k hk
  rw [← h.kept k hk]
  apply getD_step_of_not_isOpen hpair u
  rw [h.kept k hk]
  exact hk

theorem inUnit_settle (hv : Visits order entries) (hu : InUnit entries) (draw : ρ → ℝ × ρ)
    (fuel : ℕ) (rng : ρ) : InUnit (settle draw fuel order entries rng).1 :=
  settle_induction (fun _ _ _ u hpair h => inUnit_step hpair u h) hv draw fuel rng hu

end PathSelection.Rounding
