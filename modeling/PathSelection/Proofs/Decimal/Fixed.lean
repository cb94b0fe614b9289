import Mathlib.Tactic.Tauto
import PathSelection.Decimal.Fixed
import PathSelection.Text.Split

namespace PathSelection

theorem Text.isBlank_of_isDigit {c : Char} (h : c.isDigit = true) : isBlank c = false := by
  have hrange : 48 ≤ c.toNat ∧ c.toNat ≤ 57 := by
    simpa [Char.isDigit, UInt32.le_iff_toNat_le] using h
  unfold isBlank
  simp only [Bool.or_eq_false_iff, Bool.and_eq_false_iff, beq_eq_false_iff_ne,
    decide_eq_false_iff_not]
  omega

namespace Decimal

theorem isDigit_of_mem_digits {n : Nat} {c : Char} (hc : c ∈ digits n) : c.isDigit = true :=
  Nat.isDigit_of_mem_toDigits (by decide) (by decide) hc

theorem isDigit_of_mem_paddedDigits {width n : Nat} {c : Char} (hc : c ∈ paddedDigits width n) :
    c.isDigit = true := by
  rcases List.mem_append.mp hc with hzero | hdigit
  · rw [List.eq_of_mem_replicate hzero]
    decide
  · exact isDigit_of_mem_digits hdigit

/-- Positional notation adds a point and zeros to the digits. -/
theorem mem_positional {ds : List Char} {power : Int} {c : Char} (hc : c ∈ positional ds power) :
    c ∈ ds ∨ c = '0' ∨ c = '.' := by
  unfold positional at hc
  split at hc
  · rw [List.mem_append, List.mem_replicate] at hc
    tauto
  · dsimp only at hc
    split at hc
    · rw [List.mem_append, List.mem_cons] at hc
      rcases hc with hc | hc | hc
      · exact Or.inl (List.mem_of_mem_take hc)
      · exact Or.inr (Or.inr hc)
      · exact Or.inl (List.mem_of_mem_drop hc)
    · rw [List.mem_cons, List.mem_cons, List.mem_append, List.mem_replicate] at hc
      tauto

theorem isBlank_of_mem_fixedFraction {places num den : Nat} {c : Char}
    (hc : c ∈ fixedFraction places num den) : Text.isBlank c = false := by
  rcases mem_positional hc with hdigit | rfl | rfl
  · exact Text.isBlank_of_isDigit (isDigit_of_mem_paddedDigits hdigit)
  · decide
  · decide

theorem isBlank_of_mem_signed {negative : Bool} {cs : List Char} {c : Char}
    (hcs : ∀ c ∈ cs, Text.isBlank c = false) (hc : c ∈ signed negative cs) :
    Text.isBlank c = false := by
  unfold signed at hc
  split at hc
  · rcases List.mem_cons.mp hc with rfl | hc
    · decide
    · exact hcs c hc
  · exact hcs c hc

theorem isBlank_of_all {cs : List Char} (h : (cs.all fun c => !Text.isBlank c) = true) :
    ∀ c ∈ cs, Text.isBlank c = false := by
  intro c hc
  simpa using List.all_eq_true.mp h c hc

/-- A number with fixed places has no blank in its text, also if it is not finite. -/
theorem isBlank_of_mem_fixed {places : Nat} {x : Float} {c : Char}
    (hc : c ∈ (fixed places x).toList) : Text.isBlank c = false := by
  unfold fixed at hc
  split at hc
  · exact isBlank_of_all (by decide) c hc
  · rw [String.toList_ofList] at hc
    exact isBlank_of_mem_signed (isBlank_of_all (by decide)) hc
  · rw [String.toList_ofList] at hc
    exact isBlank_of_mem_signed (fun c => isBlank_of_mem_fixedFraction) hc

end Decimal

end PathSelection
