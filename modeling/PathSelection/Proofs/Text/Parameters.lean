import PathSelection.Decimal.Text
import PathSelection.Proofs.Text.Lines

namespace PathSelection.Text

variable {α : Type} [NumberText α]

/-- The columns of a parameter file, in order. -/
def columns : List String := ["latency", "bandwidth", "loss"]

/-- The tokens of a line begin with the numbers of a metric. -/
def ParameterTokens (tokens : List (List Char)) (metric : Metric α) : Prop :=
  ∃ r b l rest, tokens = r :: b :: l :: rest ∧ NumberText.read? r = some metric.latency ∧
    NumberText.read? b = some metric.bandwidth ∧ NumberText.read? l = some metric.loss

/-- A line that begins with the numbers of a metric. There may be more tokens, of any kind. -/
def ParameterLine (line : List Char) (metric : Metric α) : Prop :=
  ∃ tokens, Tokens line tokens ∧ ParameterTokens tokens metric

/-- What is wrong with the first column that has no token or whose token is not a number. -/
inductive ColumnFault (α : Type) [NumberText α] :
    List String → List (List Char) → LineFault → Prop
  | missing (column : String) (columns : List String) :
      ColumnFault α (column :: columns) [] (.missingColumn column)
  | bad (column : String) (columns : List String) {token : List Char} (rest : List (List Char))
      (hbad : (NumberText.read? token : Option α) = none) :
      ColumnFault α (column :: columns) (token :: rest) (.badColumn column token)
  | later (column : String) {columns : List String} {token : List Char} {rest : List (List Char)}
      {fault : LineFault} (x : α) (hx : NumberText.read? token = some x)
      (h : ColumnFault α columns rest fault) :
      ColumnFault α (column :: columns) (token :: rest) fault

/-- A significant line that does not begin with three numbers, after lines that do or that are
skipped. -/
structure FirstBroken (α : Type) [NumberText α] (before : List (List Char)) (line : List Char) :
    Prop where
  earlier : ∀ earlier ∈ before, isSignificant earlier = true →
    ∃ metric : Metric α, ParameterLine earlier metric
  significant : isSignificant line = true
  broken : ∀ metric : Metric α, ¬ ParameterLine line metric

section Columns

variable {column : String} {names : List String} {tokens rest : List (List Char)}
  {fault : LineFault} {x : α}

theorem readColumn_eq_ok_iff :
    readColumn column tokens = .ok (x, rest) ↔
      ∃ token, tokens = token :: rest ∧ NumberText.read? token = some x := by
  cases tokens with
  | nil => simp [readColumn]
  | cons token tokens =>
    rw [readColumn]
    cases hread : (NumberText.read? token : Option α) with
    | none => simp [hread]
    | some y => simp [hread, and_comm, eq_comm]

theorem not_columnFault_nil : ¬ ColumnFault α [] tokens fault := nofun

/-- A fault is in the first column, or it is in a later one and the first column was read. -/
theorem columnFault_cons_iff :
    ColumnFault α (column :: names) tokens fault ↔
      (readColumn column tokens : Except _ (α × _)) = .error fault ∨
        ∃ (x : α) (rest : List (List Char)), readColumn column tokens = .ok (x, rest) ∧
          ColumnFault α names rest fault := by
  constructor
  · intro h
    cases h with
    | missing => exact .inl rfl
    | bad _ _ rest hbad =>
      left
      rw [readColumn, hbad]
    | later _ x hx h => exact .inr ⟨x, _, readColumn_eq_ok_iff.mpr ⟨_, rfl, hx⟩, h⟩
  · rintro (hfault | ⟨x, rest, hread, h⟩)
    · cases tokens with
      | nil =>
        obtain rfl := Except.error.inj hfault
        exact .missing column names
      | cons token rest =>
        rw [readColumn] at hfault
        split at hfault
        · exact absurd hfault nofun
        · next hbad =>
          obtain rfl := Except.error.inj hfault
          exact .bad column names rest hbad
    · obtain ⟨token, rfl, hx⟩ := readColumn_eq_ok_iff.mp hread
      exact .later column x hx h

theorem parameterTokens_iff {metric : Metric α} :
    ParameterTokens tokens metric ↔
      ∃ afterLatency afterBandwidth rest,
        readColumn "latency" tokens = .ok (metric.latency, afterLatency) ∧
        readColumn "bandwidth" afterLatency = .ok (metric.bandwidth, afterBandwidth) ∧
        readColumn "loss" afterBandwidth = .ok (metric.loss, rest) := by
  simp only [readColumn_eq_ok_iff]
  constructor
  · rintro ⟨r, b, l, rest, rfl, hr, hb, hl⟩
    exact ⟨b :: l :: rest, l :: rest, rest, ⟨r, rfl, hr⟩, ⟨b, rfl, hb⟩, ⟨l, rfl, hl⟩⟩
  · rintro ⟨_, _, rest, ⟨r, rfl, hr⟩, ⟨b, rfl, hb⟩, ⟨l, rfl, hl⟩⟩
    exact ⟨r, b, l, rest, rfl, hr, hb, hl⟩

end Columns

section Line

variable {line : List Char}

theorem readParameters_eq_ok_iff {metric : Metric α} :
    readParameters line = .ok metric ↔ ParameterTokens (words line) metric := by
  obtain ⟨latency, bandwidth, loss⟩ := metric
  rw [parameterTokens_iff, readParameters]
  cases readColumn (α := α) "latency" (words line) with
  | error fault => simp
  | ok found =>
    obtain ⟨r, tokens⟩ := found
    simp only [Except.ok.injEq, Prod.mk.injEq]
    cases hb : readColumn (α := α) "bandwidth" tokens with
    | error fault => simp [hb]
    | ok found =>
      obtain ⟨b, tokens⟩ := found
      cases hl : readColumn (α := α) "loss" tokens with
      | error fault => simp [hb, hl]
      | ok found =>
        obtain ⟨l, rest⟩ := found
        simp [hb, hl]

theorem readParameters_eq_error_iff {fault : LineFault} :
    (readParameters line : Except _ (Metric α)) = .error fault ↔
      ColumnFault α columns (words line) fault := by
  simp only [columns, columnFault_cons_iff, not_columnFault_nil, readParameters]
  cases readColumn (α := α) "latency" (words line) with
  | error fault => simp
  | ok found =>
    obtain ⟨r, tokens⟩ := found
    cases hb : readColumn (α := α) "bandwidth" tokens with
    | error fault => simp [hb]
    | ok found =>
      obtain ⟨b, tokens⟩ := found
      cases hl : readColumn (α := α) "loss" tokens with
      | error fault => simp [hb, hl]
      | ok found => simp [hb, hl]

theorem parameterLine_iff {metric : Metric α} :
    ParameterLine line metric ↔ readParameters (trim line) = .ok metric := by
  rw [ParameterLine, exists_tokens_iff, readParameters_eq_ok_iff, words_trim]

theorem columnFault_iff {fault : LineFault} :
    (∃ tokens, Tokens line tokens ∧ ColumnFault α columns tokens fault) ↔
      (readParameters (trim line) : Except _ (Metric α)) = .error fault := by
  rw [exists_tokens_iff, readParameters_eq_error_iff, words_trim]

end Line

theorem firstFault_iff {fault : Fault} {before : List (List Char)} {line : List Char} :
    FirstFault (readParameters (α := α)) 1 fault before line ↔
      fault.line = before.length + 1 ∧ FirstBroken α before line ∧
        ∃ tokens, Tokens line tokens ∧ ColumnFault α columns tokens fault.fault := by
  rw [columnFault_iff, Nat.add_comm]
  constructor
  · rintro ⟨hnumber, hearlier, hline, hfault⟩
    have hbroken : ∀ metric : Metric α, ¬ ParameterLine line metric := by
      intro metric hmetric
      rw [parameterLine_iff, hfault] at hmetric
      exact absurd hmetric nofun
    exact ⟨hnumber, ⟨by simpa only [parameterLine_iff] using hearlier, hline, hbroken⟩, hfault⟩
  · rintro ⟨hnumber, ⟨hearlier, hline, -⟩, hfault⟩
    exact ⟨hnumber, by simpa only [parameterLine_iff] using hearlier, hline, hfault⟩

/-- The words for a fault in a column name it. -/
theorem ColumnFault.message {names : List String} {tokens : List (List Char)} {fault : LineFault}
    (h : ColumnFault α names tokens fault) :
    ∃ column ∈ names,
      (fault = .missingColumn column ∧ fault.message = "missing " ++ column ++ " column") ∨
      ∃ token ∈ tokens, fault = .badColumn column token ∧ fault.message =
        "bad " ++ column ++ " value " ++ quoted token ++ ": invalid float literal" := by
  induction h with
  | missing column => exact ⟨column, List.mem_cons_self, .inl ⟨rfl, rfl⟩⟩
  | @bad column _ token =>
    exact ⟨column, List.mem_cons_self, .inr ⟨token, List.mem_cons_self, rfl, rfl⟩⟩
  | later _ _ _ _ ih =>
    obtain ⟨column, hcolumn, hmessage⟩ := ih
    refine ⟨column, List.mem_cons_of_mem _ hcolumn, hmessage.imp_right ?_⟩
    rintro ⟨token, htoken, hbad⟩
    exact ⟨token, List.mem_cons_of_mem _ htoken, hbad⟩

/-- A text is read if each significant line begins with three numbers, and then to these. Otherwise
the first significant line that does not is reported, with its number among all lines and with the
first column that has no token or whose token is not a number. -/
theorem parseParameters_grammar (text : List Char) :
    ((∃ metrics : List (Metric α), parseParameters text = .ok metrics) ↔
      ∀ line ∈ lines text, isSignificant line = true →
        ∃ metric : Metric α, ParameterLine line metric) ∧
    (∀ metrics : List (Metric α), parseParameters text = .ok metrics ↔
      List.Forall₂ ParameterLine ((lines text).filter isSignificant) metrics) ∧
    (∀ fault : Fault, (parseParameters text : Except _ (List (Metric α))) = .error fault ↔
      ∃ before line after, lines text = before ++ line :: after ∧
        fault.line = before.length + 1 ∧ FirstBroken α before line ∧
        ∃ tokens, Tokens line tokens ∧ ColumnFault α columns tokens fault.fault) ∧
    ∀ fault : Fault, (parseParameters text : Except _ (List (Metric α))) = .error fault →
      ∃ column ∈ columns,
        (fault.fault = .missingColumn column ∧
          fault.fault.message = "missing " ++ column ++ " column") ∨
        ∃ token, fault.fault = .badColumn column token ∧ fault.fault.message =
          "bad " ++ column ++ " value " ++ quoted token ++ ": invalid float literal" := by
  have hok (metrics : List (Metric α)) : parseParameters text = .ok metrics ↔
      List.Forall₂ ParameterLine ((lines text).filter isSignificant) metrics := by
    have hline : (fun line metric => readParameters (α := α) (trim line) = .ok metric) =
        ParameterLine := funext₂ fun _ _ => propext parameterLine_iff.symm
    rw [parseParameters, readLines_eq_ok_iff, hline]
  have herror (fault : Fault) : (parseParameters text : Except _ (List (Metric α))) = .error fault ↔
      ∃ before line after, lines text = before ++ line :: after ∧
        fault.line = before.length + 1 ∧ FirstBroken α before line ∧
        ∃ tokens, Tokens line tokens ∧ ColumnFault α columns tokens fault.fault := by
    rw [parseParameters, readLines_eq_error_iff]
    simp only [firstFault_iff]
  refine ⟨?_, hok, herror, ?_⟩
  · simp only [parameterLine_iff]
    exact exists_readLines_iff
  · intro fault hfault
    obtain ⟨_, _, _, _, _, _, tokens, _, hcolumn⟩ := (herror fault).mp hfault
    obtain ⟨column, hmem, hmessage⟩ := hcolumn.message
    refine ⟨column, hmem, hmessage.imp_right ?_⟩
    rintro ⟨token, -, hbad⟩
    exact ⟨token, hbad⟩

example : parseParameters "# r b l\n0.1 0.2\nx".toList =
    (.error ⟨2, .missingColumn "loss"⟩ : Except Fault (List (Metric Float))) := by
  decide +kernel

end PathSelection.Text
