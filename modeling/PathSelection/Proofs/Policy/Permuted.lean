import Mathlib.Data.List.Nodup
import Mathlib.Data.List.Perm.Basic
import Mathlib.Data.Nat.Notation
import PathSelection.Lp.Exact
import PathSelection.Policy.Constrained
import PathSelection.Policy.Exp3
import PathSelection.Policy.KlUcb
import PathSelection.Policy.Thompson
import PathSelection.Random.ChaCha

namespace PathSelection

section Feedback

variable {α : Type} {entries entries' : List (ℕ × Metric α)}

/-- An update accepts some feedback in either of two orders and leaves the same state. -/
def LearnsSame {π : Type} (update : List ℕ → List (Metric α) → Except (Error α) Unit × π)
    (entries entries' : List (ℕ × Metric α)) : Prop :=
  ∃ p, update (entries.map Prod.fst) (entries.map Prod.snd) = (.ok (), p) ∧
    update (entries'.map Prod.fst) (entries'.map Prod.snd) = (.ok (), p)

theorem zip_fst_snd (entries : List (ℕ × Metric α)) :
    (entries.map Prod.fst).zip (entries.map Prod.snd) = entries :=
  (List.zip_of_prod rfl rfl).symm

theorem checkFeedback_entries {paths : ℕ} (hrange : ∀ entry ∈ entries, entry.1 < paths) :
    checkFeedback paths (entries.map Prod.fst) (entries.map Prod.snd) = .ok () := by
  rw [checkFeedback_eq_ok, List.length_map, List.length_map, List.forall_mem_map]
  exact ⟨rfl, hrange⟩

/-- An update that checks its arguments first accepts feedback about its paths in any order. -/
theorem LearnsSame.of_checked {π : Type} {paths : ℕ} {p : π}
    {next : List ℕ → List (Metric α) → π} (hperm : entries.Perm entries')
    (hrange : ∀ entry ∈ entries, entry.1 < paths)
    (hnext : next (entries.map Prod.fst) (entries.map Prod.snd) =
      next (entries'.map Prod.fst) (entries'.map Prod.snd)) :
    LearnsSame (fun selected measurements =>
      match checkFeedback paths selected measurements with
      | .error e => (.error e, p)
      | .ok () => (.ok (), next selected measurements)) entries entries' := by
  have hrange' : ∀ entry ∈ entries', entry.1 < paths := fun entry hentry =>
    hrange entry (hperm.mem_iff.mpr hentry)
  refine ⟨next (entries.map Prod.fst) (entries.map Prod.snd), ?_, ?_⟩
  · dsimp only
    rw [checkFeedback_entries hrange]
  · dsimp only
    rw [checkFeedback_entries hrange', hnext]

/-- What is learned entry by entry about different paths, each entry about its own path only. -/
theorem foldl_eq_of_perm {β : Type} {learn : β → ℕ × Metric α → β}
    (hcomm : ∀ b (x y : ℕ × Metric α), x.1 ≠ y.1 → learn (learn b x) y = learn (learn b y) x)
    (hperm : entries.Perm entries') (hnodup : (entries.map Prod.fst).Nodup) (b : β) :
    entries.foldl learn b = entries'.foldl learn b := by
  refine hperm.foldl_eq' (fun x hx y hy b => ?_) b
  by_cases hpath : x.1 = y.1
  · rw [List.inj_on_of_nodup_map hnodup hx hy hpath]
  · exact hcomm b x y hpath

theorem foldl_modify_of_perm {β : Type} {learn : ℕ × Metric α → β → β}
    (hperm : entries.Perm entries') (hnodup : (entries.map Prod.fst).Nodup) (xs : List β) :
    entries.foldl (fun xs entry => xs.modify entry.1 (learn entry)) xs =
      entries'.foldl (fun xs entry => xs.modify entry.1 (learn entry)) xs :=
  foldl_eq_of_perm (fun xs _ _ hpath => List.modify_modify_ne _ _ xs hpath) hperm hnodup xs

end Feedback

section Policies

variable {ρ α : Type} [Scalar α] {entries entries' : List (ℕ × Metric α)}
  (hperm : entries.Perm entries') (hnodup : (entries.map Prod.fst).Nodup)

include hperm hnodup

/-- The growth of a path depends on its own measurement and on how many paths were selected. -/
theorem Exp3.growths_of_perm (p : Exp3 ρ α) :
    p.growths (entries.map Prod.fst) (entries.map Prod.snd) =
      p.growths (entries'.map Prod.fst) (entries'.map Prod.snd) := by
  unfold growths
  rw [zip_fst_snd, zip_fst_snd, List.length_map, List.length_map, hperm.length_eq]
  refine foldl_eq_of_perm ?_ hperm hnodup _
  rintro exponents ⟨i, metric⟩ ⟨j, metric'⟩ hpath
  dsimp only
  cases p.growth entries'.length i metric.bandwidth with
  | none => rfl
  | some e =>
    cases p.growth entries'.length j metric'.bandwidth with
    | none => rfl
    | some e' => exact List.set_comm e e' hpath

theorem Thompson.learnsSame (p : Thompson ρ α)
    (hrange : ∀ entry ∈ entries, entry.1 < p.arms.length) :
    LearnsSame (p.update · ·) entries entries' := by
  refine .of_checked hperm hrange ?_
  unfold learn
  rw [zip_fst_snd, zip_fst_snd, foldl_modify_of_perm hperm hnodup]

theorem KlUcb.learnsSame (p : KlUcb α)
    (hrange : ∀ entry ∈ entries, entry.1 < p.tallies.length) :
    LearnsSame (p.update · ·) entries entries' := by
  refine .of_checked hperm hrange ?_
  unfold learn
  rw [zip_fst_snd, zip_fst_snd, foldl_modify_of_perm hperm hnodup]

theorem Exp3.learnsSame (p : Exp3 ρ α)
    (hrange : ∀ entry ∈ entries, entry.1 < p.weights.length) :
    LearnsSame (p.update · ·) entries entries' := by
  refine .of_checked hperm hrange ?_
  rw [p.growths_of_perm hperm hnodup]

theorem Constrained.learnsSame (p : Constrained ρ α)
    (hrange : ∀ entry ∈ entries, entry.1 < p.beliefs.length) :
    LearnsSame (p.updateAveraged · ·) entries entries' := by
  refine .of_checked hperm hrange ?_
  rw [zip_fst_snd, zip_fst_snd, foldl_modify_of_perm hperm hnodup]

/-- Thompson sampling, KL-UCB, EXP3.M, and constrained sampling by running averages learn the same
from measurements of different paths in any order. -/
theorem update_of_perm :
    (∀ p : Thompson ρ α, (∀ entry ∈ entries, entry.1 < p.arms.length) →
      LearnsSame (p.update · ·) entries entries') ∧
    (∀ p : KlUcb α, (∀ entry ∈ entries, entry.1 < p.tallies.length) →
      LearnsSame (p.update · ·) entries entries') ∧
    (∀ p : Exp3 ρ α, (∀ entry ∈ entries, entry.1 < p.weights.length) →
      LearnsSame (p.update · ·) entries entries') ∧
    ∀ p : Constrained ρ α, (∀ entry ∈ entries, entry.1 < p.beliefs.length) →
      LearnsSame (p.updateAveraged · ·) entries entries' :=
  ⟨fun p hrange => p.learnsSame hperm hnodup hrange,
    fun p hrange => p.learnsSame hperm hnodup hrange,
    fun p hrange => p.learnsSame hperm hnodup hrange,
    fun p hrange => p.learnsSame hperm hnodup hrange⟩

end Policies

/-- Two measurements in either order, with a cap that lets only one of the two weights grow. -/
theorem update_of_perm_swapped :
    let entries : List (ℕ × Metric Float) := [(2, ⟨0.1, 0.9, 0⟩), (0, ⟨0.3, 0.2, 0.5⟩)]
    let rng := ChaCha.ofSeed 1
    let uneven : Exp3 ChaCha Float := ⟨0.5, [4, 1, 1], [1, 0.5, 0.5], some 3, rng⟩
    let uniform : Constrained ChaCha Float :=
      ⟨Lp.Exact.engine, .loss, 0.5, 0, List.replicate 3 Belief.initial, rng⟩
    entries.reverse.Perm entries ∧
      LearnsSame ((Thompson.new 3 rng : Thompson ChaCha Float).update · ·) entries.reverse entries ∧
      LearnsSame ((KlUcb.new 3 true : KlUcb Float).update · ·) entries.reverse entries ∧
      LearnsSame (uneven.update · ·) entries.reverse entries ∧
      LearnsSame (uniform.updateAveraged · ·) entries.reverse entries := by
  intro entries rng uneven uniform
  have hperm : entries.reverse.Perm entries := entries.reverse_perm
  have hnodup : (entries.reverse.map Prod.fst).Nodup := by decide
  have hrange : ∀ entry ∈ entries.reverse, entry.1 < 3 := by simp [entries]
  obtain ⟨hthompson, hklUcb, hexp3, hconstrained⟩ := update_of_perm (ρ := ChaCha) hperm hnodup
  exact ⟨hperm, hthompson _ hrange, hklUcb _ hrange, hexp3 uneven hrange,
    hconstrained uniform hrange⟩

end PathSelection
