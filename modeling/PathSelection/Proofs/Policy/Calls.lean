import Mathlib.Data.Nat.Notation
import PathSelection.Policy.Basic

namespace PathSelection

/-- A call of a policy. -/
inductive Call (α : Type) where
  | decide (mode : RoundMode) (m : ℕ)
  | update (mode : RoundMode) (selected : List ℕ) (measurements : List (Metric α))

/-- What a call answers. -/
inductive Reply (α : Type) where
  | decision (answer : Except (Error α) (Selection α))
  | feedback (answer : Except (Error α) Unit)

/-- An update that was accepted, as selected paths with their measurements. -/
structure Lesson (α : Type) where
  mode : RoundMode
  entries : List (ℕ × Metric α)

section Measurements

variable {α : Type}

/-- What was measured on one path. -/
def about (entries : List (ℕ × Metric α)) (path : ℕ) : List (Metric α) :=
  entries.filterMap fun (i, metric) => if i = path then some metric else none

/-- What was measured on one path in the updates of some modes, in order. -/
def measured (modes : List RoundMode) (history : List (Lesson α)) (path : ℕ) : List (Metric α) :=
  history.flatMap fun lesson => if lesson.mode ∈ modes then about lesson.entries path else []

theorem about_cons_self (path : ℕ) (metric : Metric α) (entries : List (ℕ × Metric α)) :
    about ((path, metric) :: entries) path = metric :: about entries path :=
  List.filterMap_cons_some (if_pos rfl)

theorem about_cons_of_ne {i path : ℕ} (h : i ≠ path) (metric : Metric α)
    (entries : List (ℕ × Metric α)) : about ((i, metric) :: entries) path = about entries path :=
  List.filterMap_cons_none (if_neg h)

theorem about_eq_nil_iff {entries : List (ℕ × Metric α)} {path : ℕ} :
    about entries path = [] ↔ path ∉ entries.map Prod.fst := by
  unfold about
  rw [List.filterMap_eq_nil_iff, List.mem_map]
  constructor
  · rintro h ⟨⟨i, metric⟩, hentry, rfl⟩
    exact absurd (h _ hentry) (by simp)
  · rintro h ⟨i, metric⟩ hentry
    exact if_neg fun heq => h ⟨(i, metric), hentry, heq⟩

theorem measured_append (modes : List RoundMode) (history : List (Lesson α)) (lesson : Lesson α)
    (path : ℕ) :
    measured modes (history ++ [lesson]) path = measured modes history path ++
      if lesson.mode ∈ modes then about lesson.entries path else [] := by
  unfold measured
  rw [List.flatMap_append, List.flatMap_singleton]

end Measurements

variable {π α : Type} [Scalar α] [PathPolicy π α]

namespace Call

/-- The answer to a call, and the state after it. -/
def apply (p : π) : Call α → Reply α × π
  | .decide mode m => (.decision (mode.decide m p).1, (mode.decide m p).2)
  | .update mode selected measurements =>
    (.feedback (mode.update selected measurements p).1, (mode.update selected measurements p).2)

/-- What a call teaches a policy over some paths: an update with one measurement for each selected
path, if all of these are among its paths. -/
def lesson? (paths : ℕ) : Call α → Option (Lesson α)
  | .decide _ _ => none
  | .update mode selected measurements =>
    if selected.length = measurements.length ∧ ∀ i ∈ selected, i < paths then
      some ⟨mode, selected.zip measurements⟩
    else none

/-- What a call teaches: nothing, or the one update that is accepted. -/
def lessons (p : π) : Call α → List (Lesson α)
  | .decide _ _ => []
  | .update mode selected measurements =>
    match (mode.update selected measurements p).1 with
    | .error _ => []
    | .ok () => [⟨mode, selected.zip measurements⟩]

end Call

/-- The answers to calls one after another, and the state after them. -/
def callAll : List (Call α) → π → List (Reply α) × π
  | [], p => ([], p)
  | call :: calls, p =>
    let (reply, p) := call.apply p
    let (replies, p) := callAll calls p
    (reply :: replies, p)

theorem callAll_concat (calls : List (Call α)) (call : Call α) (p : π) :
    callAll (calls ++ [call]) p =
      ((callAll calls p).1 ++ [(call.apply (callAll calls p).2).1],
        (call.apply (callAll calls p).2).2) := by
  induction calls generalizing p with
  | nil => rfl
  | cons first calls ih =>
    unfold callAll
    rw [List.cons_append]
    dsimp only
    rw [ih]
    rfl

/-- What calls teach one after another. -/
def taught : List (Call α) → π → List (Lesson α)
  | [], _ => []
  | call :: calls, p => call.lessons p ++ taught calls (call.apply p).2

/-- Only an update teaches anything, and then in its own mode. -/
theorem eq_update_of_lessons {p : π} {call : Call α} {lesson : Lesson α}
    (h : call.lessons p = [lesson]) :
    ∃ selected measurements, call = .update lesson.mode selected measurements := by
  cases call with
  | decide mode m => exact absurd h (List.cons_ne_nil _ _).symm
  | update mode selected measurements =>
    unfold Call.lessons at h
    dsimp only at h
    split at h
    · exact absurd h (List.cons_ne_nil _ _).symm
    · obtain rfl := List.singleton_inj.mp h
      exact ⟨selected, measurements, rfl⟩

theorem callAll_induction {P : List (Lesson α) → π → Prop}
    (hcall : ∀ history p (call : Call α), P history p →
      P (history ++ call.lessons p) (call.apply p).2)
    {p : π} (hp : P [] p) (calls : List (Call α)) : P (taught calls p) (callAll calls p).2 := by
  have hall : ∀ history p, P history p →
      P (history ++ taught calls p) (callAll calls p).2 := by
    induction calls with
    | nil =>
      intro history p h
      unfold taught
      rw [List.append_nil]
      exact h
    | cons call calls ih =>
      intro history p h
      unfold taught
      rw [← List.append_assoc]
      exact ih _ _ (hcall history p call h)
  exact hall [] p hp

end PathSelection
