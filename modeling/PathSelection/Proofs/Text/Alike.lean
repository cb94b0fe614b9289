import PathSelection.Decimal.Text
import PathSelection.Proofs.Text.Words

namespace PathSelection

/-- A result and the one that is made from it, or two failures that belong together. -/
def Alike {β γ ε : Type} (f : β → γ) (same : ε → ε → Prop) (result : Except ε β)
    (result' : Except ε γ) : Prop :=
  (∃ value, result = .ok value ∧ result' = .ok (f value)) ∨
    ∃ e e', result = .error e ∧ result' = .error e' ∧ same e e'

/-- A token is no number, in a column with a name and in one without. -/
def LineFault.SameToken (fault fault' : LineFault) : Prop :=
  ∃ column token, fault = .badColumn column token ∧ fault' = .badValue token

namespace Text

/-- A token of a line is no number. -/
structure Fault.Same (fault fault' : Fault) : Prop where
  line_eq : fault'.line = fault.line
  token : LineFault.SameToken fault.fault fault'.fault

/-- Readers that treat each significant line alike treat the text alike. -/
theorem readLines_alike {β γ : Type} {f : β → γ} {read : List Char → Except LineFault β}
    {read' : List Char → Except LineFault γ} {text : List (List Char)}
    (h : ∀ line ∈ text, isSignificant line = true →
      Alike f LineFault.SameToken (read (trim line)) (read' (trim line))) (number : Nat) :
    Alike (List.map f) Fault.Same (readLines read number text) (readLines read' number text) := by
  induction text generalizing number with
  | nil => exact .inl ⟨[], rfl, rfl⟩
  | cons line text ih =>
    obtain ⟨hline, htext⟩ := List.forall_mem_cons.mp h
    rw [readLines, readLines]
    by_cases hsignificant : isSignificant line = true
    · rw [if_pos hsignificant, if_pos hsignificant]
      rcases hline hsignificant with ⟨value, hread, hread'⟩ | ⟨e, e', hread, hread', hsame⟩
      · rw [hread, hread']
        rcases ih htext (number + 1) with ⟨values, hrest, hrest'⟩ | ⟨e, e', hrest, hrest', hsame⟩
        · rw [hrest, hrest']
          exact .inl ⟨value :: values, rfl, rfl⟩
        · rw [hrest, hrest']
          exact .inr ⟨e, e', rfl, rfl, hsame⟩
      · rw [hread, hread']
        exact .inr ⟨_, _, rfl, rfl, rfl, hsame⟩
    · rw [if_neg hsignificant, if_neg hsignificant]
      exact ih htext (number + 1)

variable {α : Type} [NumberText α]

/-- A line of three tokens is read alike, up to the first token that is no number. -/
theorem readParameters_alike {line : List Char} (h : (words line).length = 3) :
    Alike (fun metric => [metric]) LineFault.SameToken
      (readParameters line : Except _ (Metric α)) (readSnapshot line) := by
  obtain ⟨r, b, l, hwords⟩ := List.length_eq_three.mp h
  unfold readParameters readSnapshot
  rw [hwords]
  simp only [readColumn, readValues]
  cases (NumberText.read? r : Option α) with
  | none => exact .inr ⟨_, _, rfl, rfl, "latency", r, rfl, rfl⟩
  | some x =>
    dsimp only
    cases (NumberText.read? b : Option α) with
    | none => exact .inr ⟨_, _, rfl, rfl, "bandwidth", b, rfl, rfl⟩
    | some y =>
      dsimp only
      cases (NumberText.read? l : Option α) with
      | none => exact .inr ⟨_, _, rfl, rfl, "loss", l, rfl, rfl⟩
      | some z => exact .inl ⟨⟨x, y, z⟩, rfl, rfl⟩

theorem parseParameters_alike {text : List Char}
    (htext : ∀ line ∈ lines text, isSignificant line = true →
      ∃ tokens, Tokens line tokens ∧ tokens.length = 3) :
    Alike (List.map fun metric => [metric]) Fault.Same
      (parseParameters text : Except _ (List (Metric α))) (parseReplay text) := by
  refine readLines_alike (fun line hline hsignificant => readParameters_alike ?_) 1
  rw [words_trim]
  exact exists_tokens_iff.mp (htext line hline hsignificant)

/-- If each significant line of a text has three tokens, the text is a replay script exactly if it
is a parameter file. The snapshots are then the metrics one by one. Otherwise the same line is
reported in both formats, with the same token that is no number. -/
theorem parse_agrees {text : List Char}
    (htext : ∀ line ∈ lines text, isSignificant line = true →
      ∃ tokens, Tokens line tokens ∧ tokens.length = 3) :
    ((∃ snapshots : List (List (Metric α)), parseReplay text = .ok snapshots) ↔
      ∃ metrics : List (Metric α), parseParameters text = .ok metrics) ∧
    (∀ metrics : List (Metric α), parseParameters text = .ok metrics →
      parseReplay text = .ok (metrics.map fun metric => [metric])) ∧
    ∀ fault : Fault, (parseParameters text : Except _ (List (Metric α))) = .error fault →
      ∃ column token, fault.fault = .badColumn column token ∧
        (parseReplay text : Except _ (List (List (Metric α)))) =
          .error ⟨fault.line, .badValue token⟩ := by
  rcases parseParameters_alike (α := α) htext with
    ⟨metrics, hparameters, hreplay⟩ | ⟨fault, fault', hparameters, hreplay, hline, hsame⟩
  · rw [hparameters, hreplay]
    refine ⟨⟨fun _ => ⟨metrics, rfl⟩, fun _ => ⟨_, rfl⟩⟩, ?_, nofun⟩
    rintro _ ⟨⟩
    rfl
  · rw [hparameters, hreplay]
    refine ⟨⟨nofun, nofun⟩, nofun, ?_⟩
    rintro _ ⟨⟩
    obtain ⟨column, token, hcolumn, htoken⟩ := hsame
    exact ⟨column, token, hcolumn, by rw [← hline, ← htoken]⟩

/-- A text that is read, and one whose fourth line has two tokens that are no numbers. -/
theorem parse_agrees_broken :
    let good := "# r b l\n0.5 1 0\r\n\n 1\t0 0.5".toList
    let broken := "# r b l\n0.5 1 0\r\n\n 1\tx y".toList
    (∀ text ∈ [good, broken], ∀ line ∈ lines text, isSignificant line = true →
      ∃ tokens, Tokens line tokens ∧ tokens.length = 3) ∧
    (parseReplay good : Except _ (List (List (Metric Float)))) =
      .ok [[⟨0.5, 1, 0⟩], [⟨1, 0, 0.5⟩]] ∧
    (parseReplay broken : Except _ (List (List (Metric Float)))) = .error ⟨4, .badValue ['x']⟩ := by
  intro good broken
  have htexts : ∀ text ∈ [good, broken], ∀ line ∈ lines text, isSignificant line = true →
      ∃ tokens, Tokens line tokens ∧ tokens.length = 3 := by
    simp only [exists_tokens_iff]
    decide +kernel
  have hmetrics : (parseParameters good : Except _ (List (Metric Float))) =
      .ok [⟨0.5, 1, 0⟩, ⟨1, 0, 0.5⟩] := by decide +kernel
  have hfault : (parseParameters broken : Except _ (List (Metric Float))) =
      .error ⟨4, .badColumn "bandwidth" ['x']⟩ := by decide +kernel
  obtain ⟨-, hread, -⟩ := parse_agrees (α := Float) (htexts good List.mem_cons_self)
  obtain ⟨-, -, hrefused⟩ := parse_agrees (α := Float)
    (htexts broken (List.mem_cons_of_mem _ List.mem_cons_self))
  obtain ⟨_, _, ⟨⟩, hreplay⟩ := hrefused _ hfault
  exact ⟨htexts, hread _ hmetrics, hreplay⟩

end Text

end PathSelection
