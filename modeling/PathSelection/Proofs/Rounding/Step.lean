import Mathlib.Data.List.GetD
import Mathlib.Tactic.Linarith
import PathSelection.Proofs.Reals
import PathSelection.Rounding

namespace PathSelection.Rounding

/-- An entry is undecided from one edge to the other, both included. -/
theorem isOpen_real (e : ℝ) : isOpen e = true ↔ 0.001 ≤ e ∧ e ≤ 0.999 := by
  unfold isOpen
  rw [Bool.and_eq_true, Bool.not_eq_true', Bool.not_eq_true', decide_eq_false_iff_not,
    decide_eq_false_iff_not, not_lt, not_lt]
  exact and_comm

theorem isOpen_real_eq_false (e : ℝ) : isOpen e = false ↔ e < 0.001 ∨ 0.999 < e := by
  rw [← Bool.not_eq_true, isOpen_real, not_and_or, not_le, not_le]

/-- Positions outside the list hold zero, which is decided. -/
theorem lt_length_of_isOpen {entries : List ℝ} {k : ℕ} (h : isOpen (entries.getD k 0) = true) :
    k < entries.length := by
  by_contra hk
  rw [List.getD_eq_default _ _ (not_lt.mp hk), isOpen_real] at h
  norm_num at h

/-- All entries lie in the unit interval. -/
def InUnit (entries : List ℝ) : Prop := ∀ k, 0 ≤ entries.getD k 0 ∧ entries.getD k 0 ≤ 1

/-- Two different undecided positions. -/
structure OpenPair (entries : List ℝ) (i j : ℕ) : Prop where
  ne : i ≠ j
  fst_open : isOpen (entries.getD i 0) = true
  snd_open : isOpen (entries.getD j 0) = true

/-- Moves the mass `d` from the entry at `j` to the entry at `i`. -/
noncomputable def transfer (i j : ℕ) (d : ℝ) (entries : List ℝ) : List ℝ :=
  (entries.set i (entries.getD i 0 + d)).set j (entries.getD j 0 - d)

@[simp] theorem length_transfer (i j : ℕ) (d : ℝ) (entries : List ℝ) :
    (transfer i j d entries).length = entries.length := by
  simp only [transfer, List.length_set]

section Transfer

variable {entries : List ℝ} {i j : ℕ}

theorem getD_transfer_fst (h : OpenPair entries i j) (d : ℝ) :
    (transfer i j d entries).getD i 0 = entries.getD i 0 + d := by
  have hi := lt_length_of_isOpen h.fst_open
  simp [transfer, List.getD_eq_getElem?_getD, h.ne.symm, hi]

theorem getD_transfer_snd (h : OpenPair entries i j) (d : ℝ) :
    (transfer i j d entries).getD j 0 = entries.getD j 0 - d := by
  have hj := lt_length_of_isOpen h.snd_open
  simp [transfer, List.getD_eq_getElem?_getD, hj]

theorem getD_transfer_of_ne (d : ℝ) {k : ℕ} (hi : k ≠ i) (hj : k ≠ j) :
    (transfer i j d entries).getD k 0 = entries.getD k 0 := by
  simp [transfer, List.getD_eq_getElem?_getD, hi.symm, hj.symm]

/-- What one entry gains the other one loses. -/
theorem sum_transfer (h : OpenPair entries i j) (d : ℝ) :
    (transfer i j d entries).sum = entries.sum := by
  have hi := lt_length_of_isOpen h.fst_open
  have hj := lt_length_of_isOpen h.snd_open
  unfold transfer
  rw [List.sum_set', List.sum_set']
  simp only [List.length_set, hi, hj, dite_true, List.getElem_set_ne h.ne]
  rw [List.getD_eq_getElem _ _ hi, List.getD_eq_getElem _ _ hj]
  ring

end Transfer

/-- How much mass a step may move up to the first entry. -/
noncomputable def upMass (p q : ℝ) : ℝ := min (1 - p) q

/-- How much mass a step may move down from the first entry. -/
noncomputable def downMass (p q : ℝ) : ℝ := min p (1 - q)

/-- The probability that a step moves mass up to the first entry. -/
noncomputable def upChance (p q : ℝ) : ℝ := downMass p q / (upMass p q + downMass p q)

theorem upMass_pos {p q : ℝ} (hp : isOpen p = true) (hq : isOpen q = true) : 0 < upMass p q := by
  rw [isOpen_real] at hp hq
  exact lt_min (by linarith) (by linarith)

theorem downMass_pos {p q : ℝ} (hp : isOpen p = true) (hq : isOpen q = true) :
    0 < downMass p q := by
  rw [isOpen_real] at hp hq
  exact lt_min (by linarith) (by linarith)

theorem step_eq_transfer (entries : List ℝ) (i j : ℕ) (u : ℝ) :
    step i j u entries =
      if u < upChance (entries.getD i 0) (entries.getD j 0) then
        transfer i j (upMass (entries.getD i 0) (entries.getD j 0)) entries
      else transfer i j (-downMass (entries.getD i 0) (entries.getD j 0)) entries := by
  unfold step room
  simp only [Scalar.zero_real, Scalar.one_real, Scalar.min_real]
  unfold transfer upChance upMass downMass
  rw [sub_neg_eq_add]
  rfl

/-- Mass that keeps two entries in the unit interval and drives one of them to its end. -/
structure Settles (p q d : ℝ) : Prop where
  fst_mem : 0 ≤ p + d ∧ p + d ≤ 1
  snd_mem : 0 ≤ q - d ∧ q - d ≤ 1
  hits_end : (p + d = 0 ∨ p + d = 1) ∨ (q - d = 0 ∨ q - d = 1)

theorem settles_upMass {p q : ℝ} (hp : isOpen p = true) (hq : isOpen q = true) :
    Settles p q (upMass p q) := by
  have hpos := upMass_pos hp hq
  have hle₁ : upMass p q ≤ 1 - p := min_le_left _ _
  have hle₂ : upMass p q ≤ q := min_le_right _ _
  rw [isOpen_real] at hp hq
  refine ⟨⟨by linarith, by linarith⟩, ⟨by linarith, by linarith⟩, ?_⟩
  rcases min_choice (1 - p) q with h | h
  · exact Or.inl (Or.inr (by unfold upMass; linarith))
  · exact Or.inr (Or.inl (by unfold upMass; linarith))

theorem settles_neg_downMass {p q : ℝ} (hp : isOpen p = true) (hq : isOpen q = true) :
    Settles p q (-downMass p q) := by
  have hpos := downMass_pos hp hq
  have hle₁ : downMass p q ≤ p := min_le_left _ _
  have hle₂ : downMass p q ≤ 1 - q := min_le_right _ _
  rw [isOpen_real] at hp hq
  refine ⟨⟨by linarith, by linarith⟩, ⟨by linarith, by linarith⟩, ?_⟩
  rcases min_choice p (1 - q) with h | h
  · exact Or.inl (Or.inl (by unfold downMass; linarith))
  · exact Or.inr (Or.inr (by unfold downMass; linarith))

/-- Whatever the draw, a step moves some mass that settles one of its two entries. -/
theorem step_cases {entries : List ℝ} {i j : ℕ} (h : OpenPair entries i j) (u : ℝ) :
    ∃ d, step i j u entries = transfer i j d entries ∧
      Settles (entries.getD i 0) (entries.getD j 0) d := by
  rw [step_eq_transfer]
  split
  · exact ⟨_, rfl, settles_upMass h.fst_open h.snd_open⟩
  · exact ⟨_, rfl, settles_neg_downMass h.fst_open h.snd_open⟩

section Step

variable {entries : List ℝ} {i j : ℕ}

@[simp] theorem length_step (h : OpenPair entries i j) (u : ℝ) :
    (step i j u entries).length = entries.length := by
  obtain ⟨d, hd, -⟩ := step_cases h u
  rw [hd, length_transfer]

theorem sum_step (h : OpenPair entries i j) (u : ℝ) : (step i j u entries).sum = entries.sum := by
  obtain ⟨d, hd, -⟩ := step_cases h u
  rw [hd, sum_transfer h]

theorem getD_step_of_ne (h : OpenPair entries i j) (u : ℝ) {k : ℕ} (hi : k ≠ i) (hj : k ≠ j) :
    (step i j u entries).getD k 0 = entries.getD k 0 := by
  obtain ⟨d, hd, -⟩ := step_cases h u
  rw [hd, getD_transfer_of_ne d hi hj]

/-- A decided entry is never touched again. -/
theorem getD_step_of_not_isOpen (h : OpenPair entries i j) (u : ℝ) {k : ℕ}
    (hk : isOpen (entries.getD k 0) = false) :
    (step i j u entries).getD k 0 = entries.getD k 0 := by
  apply getD_step_of_ne h u
  · rintro rfl
    exact Bool.false_ne_true (hk.symm.trans h.fst_open)
  · rintro rfl
    exact Bool.false_ne_true (hk.symm.trans h.snd_open)

theorem inUnit_step (h : OpenPair entries i j) (u : ℝ) (hu : InUnit entries) :
    InUnit (step i j u entries) := by
  obtain ⟨d, hd, hs⟩ := step_cases h u
  intro k
  by_cases hi : k = i
  · rw [hi, hd, getD_transfer_fst h]
    exact hs.fst_mem
  by_cases hj : k = j
  · rw [hj, hd, getD_transfer_snd h]
    exact hs.snd_mem
  rw [getD_step_of_ne h u hi hj]
  exact hu k

/-- One of the two entries of a step reaches an end of the unit interval. -/
theorem step_hits_end (h : OpenPair entries i j) (u : ℝ) :
    ((step i j u entries).getD i 0 = 0 ∨ (step i j u entries).getD i 0 = 1) ∨
      ((step i j u entries).getD j 0 = 0 ∨ (step i j u entries).getD j 0 = 1) := by
  obtain ⟨d, hd, hs⟩ := step_cases h u
  rw [hd, getD_transfer_fst h, getD_transfer_snd h]
  exact hs.hits_end

theorem step_decides (h : OpenPair entries i j) (u : ℝ) :
    isOpen ((step i j u entries).getD i 0) = false ∨
      isOpen ((step i j u entries).getD j 0) = false := by
  rw [isOpen_real_eq_false, isOpen_real_eq_false]
  rcases step_hits_end h u with (h0 | h1) | (h0 | h1)
  · exact Or.inl (Or.inl (by rw [h0]; norm_num))
  · exact Or.inl (Or.inr (by rw [h1]; norm_num))
  · exact Or.inr (Or.inl (by rw [h0]; norm_num))
  · exact Or.inr (Or.inr (by rw [h1]; norm_num))

end Step

/-- The undecided positions. -/
noncomputable def openPositions (entries : List ℝ) : Finset ℕ :=
  (Finset.range entries.length).filter fun k => isOpen (entries.getD k 0) = true

theorem mem_openPositions {entries : List ℝ} {k : ℕ} :
    k ∈ openPositions entries ↔ isOpen (entries.getD k 0) = true := by
  unfold openPositions
  rw [Finset.mem_filter, Finset.mem_range]
  exact ⟨And.right, fun h => ⟨lt_length_of_isOpen h, h⟩⟩

theorem card_openPositions_le (entries : List ℝ) : (openPositions entries).card ≤ entries.length :=
  calc (openPositions entries).card
      ≤ (Finset.range entries.length).card := Finset.card_filter_le _ _
    _ = entries.length := Finset.card_range _

theorem openPositions_step_ssubset {entries : List ℝ} {i j : ℕ} (h : OpenPair entries i j)
    (u : ℝ) : openPositions (step i j u entries) ⊂ openPositions entries := by
  have hsub : openPositions (step i j u entries) ⊆ openPositions entries := by
    intro k hk
    rw [mem_openPositions] at hk ⊢
    by_contra hc
    rw [Bool.not_eq_true] at hc
    rw [getD_step_of_not_isOpen h u hc, hc] at hk
    exact Bool.false_ne_true hk
  rw [Finset.ssubset_iff_of_subset hsub]
  rcases step_decides h u with hd | hd
  · exact ⟨i, mem_openPositions.mpr h.fst_open, by rw [mem_openPositions, hd]; decide⟩
  · exact ⟨j, mem_openPositions.mpr h.snd_open, by rw [mem_openPositions, hd]; decide⟩

end PathSelection.Rounding
