import PathSelection.Proofs.Text.Parameters

namespace PathSelection

variable {α : Type}

/-- The numbers of a metric, in the order of the columns. -/
def Metric.values (metric : Metric α) : List α := [metric.latency, metric.bandwidth, metric.loss]

namespace Text

theorem triples?_eq_some_iff {xs : List α} {metrics : List (Metric α)} :
    triples? xs = some metrics ↔ xs = metrics.flatMap Metric.values := by
  constructor
  · intro h
    fun_induction triples? xs generalizing metrics with
    | case1 =>
      obtain rfl := Option.some.inj h
      rfl
    | case2 r b l rest ih =>
      obtain ⟨later, hlater, rfl⟩ := Option.map_eq_some_iff.mp h
      rw [List.flatMap_cons, ← ih hlater]
      rfl
    | case3 => exact absurd h nofun
  · rintro rfl
    induction metrics with
    | nil => rfl
    | cons metric metrics ih =>
      rw [List.flatMap_cons]
      exact congrArg (Option.map (metric :: ·)) ih

variable [NumberText α]

/-- The text of a number as it stands in a line. -/
def numberToken (x : α) : List Char := (NumberText.plain x).toList

/-- The text of a number is a token that does not begin a comment, and it reads back as the
number. -/
structure Legible (x : α) : Prop where
  isToken : IsToken (numberToken x)
  head?_ne : (numberToken x).head? ≠ some '#'
  read?_eq : NumberText.read? (numberToken x) = some x

instance [DecidableEq α] (x : α) : Decidable (Legible x) :=
  decidable_of_iff (IsToken (numberToken x) ∧ (numberToken x).head? ≠ some '#' ∧
      NumberText.read? (numberToken x) = some x)
    ⟨fun h => ⟨h.1, h.2.1, h.2.2⟩, fun h => ⟨h.isToken, h.head?_ne, h.read?_eq⟩⟩

/-- A line with the numbers of some metrics, one after another. The blanks between them are free,
and so are those around them. -/
def Row (metrics : List (Metric α)) (line : List Char) : Prop :=
  Spaced ((metrics.flatMap Metric.values).map numberToken) line

section Read

variable {tokens : List (List Char)} {line : List Char} {metrics : List (Metric α)}

theorem readValues_eq_ok_iff {xs : List α} :
    readValues tokens = .ok xs ↔
      List.Forall₂ (fun token x => NumberText.read? token = some x) tokens xs := by
  induction tokens generalizing xs with
  | nil => simp [readValues, eq_comm]
  | cons token tokens ih =>
    rw [readValues, List.forall₂_cons_left_iff]
    cases (NumberText.read? token : Option α) with
    | none => simp
    | some x =>
      simp only [← ih, Option.some.injEq]
      cases (readValues tokens : Except _ (List α)) with
      | error fault => simp
      | ok rest => simp [eq_comm]

/-- A snapshot is read if the words of its line are its numbers, in order. -/
theorem readSnapshot_eq_ok_iff :
    readSnapshot line = .ok metrics ↔
      List.Forall₂ (fun token x => NumberText.read? token = some x) (words line)
        (metrics.flatMap Metric.values) := by
  rw [← readValues_eq_ok_iff, readSnapshot]
  cases (readValues (words line) : Except _ (List α)) with
  | error fault => simp
  | ok xs =>
    simp only [Except.ok.injEq, ← triples?_eq_some_iff]
    cases triples? xs with
    | none => simp
    | some found => simp

theorem readSnapshot_ne_nil (hline : isSignificant line = true)
    (h : readSnapshot (trim line) = .ok metrics) : metrics ≠ [] := by
  rintro rfl
  rw [readSnapshot_eq_ok_iff, words_trim, List.flatMap_nil, List.forall₂_nil_right_iff] at h
  exact (words_eq_iff.mp h).ne_nil hline rfl

end Read

section Row

variable {metrics : List (Metric α)} {metric : Metric α} {line : List Char}

theorem forall_legible_flatMap (hlegible : ∀ metric ∈ metrics, ∀ x ∈ metric.values, Legible x) :
    ∀ x ∈ metrics.flatMap Metric.values, Legible x := by
  intro x hx
  obtain ⟨metric, hmetric, hx⟩ := List.mem_flatMap.mp hx
  exact hlegible metric hmetric x hx

theorem Row.tokens (h : Row metrics line)
    (hlegible : ∀ metric ∈ metrics, ∀ x ∈ metric.values, Legible x) :
    Tokens line ((metrics.flatMap Metric.values).map numberToken) := by
  refine ⟨h, List.forall_mem_map.mpr fun x hx => ?_⟩
  exact (forall_legible_flatMap hlegible x hx).isToken

theorem Row.isSignificant (h : Row metrics line) (hmetrics : metrics ≠ [])
    (hlegible : ∀ metric ∈ metrics, ∀ x ∈ metric.values, Legible x) :
    isSignificant line = true := by
  have htokens := h.tokens hlegible
  obtain ⟨metric, metrics, rfl⟩ := List.exists_cons_of_ne_nil hmetrics
  have hfirst : Legible metric.latency :=
    hlegible metric List.mem_cons_self metric.latency List.mem_cons_self
  exact (Tokens.isSignificant_iff htokens).mpr hfirst.head?_ne

theorem Row.readSnapshot_eq (h : Row metrics line)
    (hlegible : ∀ metric ∈ metrics, ∀ x ∈ metric.values, Legible x) :
    readSnapshot (trim line) = .ok metrics := by
  rw [readSnapshot_eq_ok_iff, words_trim, words_eq_iff.mpr (h.tokens hlegible),
    List.forall₂_map_left_iff, List.forall₂_same]
  exact fun x hx => (forall_legible_flatMap hlegible x hx).read?_eq

theorem Row.readParameters_eq (h : Row [metric] line) (hlegible : ∀ x ∈ metric.values, Legible x) :
    readParameters (trim line) = .ok metric := by
  have htokens : Tokens line (metric.values.map numberToken) := by
    have hmetrics : [metric].flatMap Metric.values = metric.values := List.append_nil _
    rw [← hmetrics]
    exact h.tokens (List.forall_mem_singleton.mpr hlegible)
  obtain ⟨hr, hb, hl⟩ :
      Legible metric.latency ∧ Legible metric.bandwidth ∧ Legible metric.loss := by
    simpa [Metric.values] using hlegible
  rw [← parameterLine_iff]
  exact ⟨_, htokens, numberToken metric.latency, numberToken metric.bandwidth,
    numberToken metric.loss, [], rfl, hr.read?_eq, hb.read?_eq, hl.read?_eq⟩

/-- The text of a metric is a line with its numbers. -/
theorem row_text (metric : Metric α) : Row [metric] metric.text.toList := by
  have hgap : IsGap ['\t'] := by decide
  have htext : metric.text.toList = [] ++ numberToken metric.latency ++
      (['\t'] ++ numberToken metric.bandwidth ++ (['\t'] ++ numberToken metric.loss ++ [])) := by
    simp [Metric.text, numberToken]
  rw [htext]
  have hlast : Spaced [] [] := .nil nofun
  refine .cons nofun ?_ (.cons hgap ?_ (.cons hgap nofun hlast))
  all_goals exact fun c hc => Option.some.inj hc ▸ rfl

theorem Legible.lineFeed_notMem {x : α} (h : Legible x) : '\n' ∉ numberToken x := by
  intro hmem
  exact Bool.false_ne_true ((h.isToken.not_blank '\n' hmem).symm.trans rfl)

theorem lineFeed_notMem_text (hlegible : ∀ x ∈ metric.values, Legible x) :
    '\n' ∉ metric.text.toList := by
  have hvalues : ∀ x ∈ metric.values, '\n' ∉ numberToken x := fun x hx =>
    (hlegible x hx).lineFeed_notMem
  simpa [Metric.text, Metric.values, numberToken] using hvalues

end Row

/-- A replay script is read back as its snapshots, if each of them has a path and all numbers are
read back; so is a parameter file as its metrics. In both the numbers of a line may be laid out
freely, for instance as in the text of a metric, and lines that are skipped may stand anywhere. No
snapshot is ever read as empty. -/
theorem parse_written :
    (∀ (snapshots : List (List (Metric α))) (text : List Char),
      (∀ snapshot ∈ snapshots, snapshot ≠ [] ∧
        ∀ metric ∈ snapshot, ∀ x ∈ metric.values, Legible x) →
      Written Row snapshots text → parseReplay text = .ok snapshots) ∧
    (∀ (metrics : List (Metric α)) (text : List Char),
      (∀ metric ∈ metrics, ∀ x ∈ metric.values, Legible x) →
      Written (fun metric => Row [metric]) metrics text → parseParameters text = .ok metrics) ∧
    (∀ metric : Metric α, (∀ x ∈ metric.values, Legible x) →
      Row [metric] metric.text.toList ∧ '\n' ∉ metric.text.toList) ∧
    ∀ (text : List Char) (snapshots : List (List (Metric α))),
      parseReplay text = .ok snapshots → ∀ snapshot ∈ snapshots, snapshot ≠ [] := by
  refine ⟨?_, ?_, fun metric hlegible => ⟨row_text metric, lineFeed_notMem_text hlegible⟩, ?_⟩
  · intro snapshots text hsnapshots hwritten
    refine hwritten.readLines_eq (fun snapshot hsnapshot line hrow => ?_) 1
    obtain ⟨hne, hlegible⟩ := hsnapshots snapshot hsnapshot
    exact ⟨hrow.isSignificant hne hlegible, hrow.readSnapshot_eq hlegible⟩
  · intro metrics text hmetrics hwritten
    refine hwritten.readLines_eq (fun metric hmetric line hrow => ?_) 1
    have hlegible := hmetrics metric hmetric
    exact ⟨hrow.isSignificant (List.cons_ne_nil _ _) (List.forall_mem_singleton.mpr hlegible),
      hrow.readParameters_eq hlegible⟩
  · intro text snapshots hread snapshot hsnapshot
    obtain ⟨line, -, hline, hsnapshot⟩ := exists_line_of_readLines hread hsnapshot
    exact readSnapshot_ne_nil hline hsnapshot

/-- A script of two snapshots with a comment, a blank line and line ends of every kind, and a file
with one metric. -/
theorem parse_written_comments :
    (parseReplay "# r b l\r\n  0.5 1\t0   1 0.5 0\n \r\n1 0 0.5".toList :
        Except _ (List (List (Metric Float)))) =
      .ok [[⟨0.5, 1, 0⟩, ⟨1, 0.5, 0⟩], [⟨1, 0, 0.5⟩]] ∧
    (parseParameters "0.5\t1\t0\n\n # r b l".toList : Except _ (List (Metric Float))) =
      .ok [⟨0.5, 1, 0⟩] := by
  have hhalf : Legible (0.5 : Float) := by decide +kernel
  have hone : Legible (1 : Float) := by decide +kernel
  have hzero : Legible (0 : Float) := by decide +kernel
  have htwo : Row [(⟨0.5, 1, 0⟩ : Metric Float), ⟨1, 0.5, 0⟩] "  0.5 1\t0   1 0.5 0".toList :=
    (words_eq_iff.mp (by decide +kernel)).spaced
  have hsingle : Row [(⟨1, 0, 0.5⟩ : Metric Float)] "1 0 0.5".toList :=
    (words_eq_iff.mp (by decide +kernel)).spaced
  -- The last line of either text has no line end.
  have hscript : Written Row [[(⟨0.5, 1, 0⟩ : Metric Float), ⟨1, 0.5, 0⟩], [⟨1, 0, 0.5⟩]]
      ("# r b l".toList ++ ['\r', '\n'] ++ ("  0.5 1\t0   1 0.5 0".toList ++ ['\n'] ++
        ([' '] ++ ['\r', '\n'] ++ ("1 0 0.5".toList ++ [] ++ [])))) := by
    refine .skipped (@Skipped.comment [] nofun _) (by decide) (.returnLineFeed _) ?_
    refine .row htwo (by decide) (.lineFeed _) ?_
    refine .skipped (.blank (by decide)) (by decide) (.returnLineFeed _) ?_
    exact .row hsingle (by decide) .last .nil
  have hfile : Written (fun metric => Row [metric]) [(⟨0.5, 1, 0⟩ : Metric Float)]
      ("0.5\t1\t0".toList ++ ['\n'] ++ ([] ++ ['\n'] ++ (" # r b l".toList ++ [] ++ []))) := by
    refine .row (row_text ⟨0.5, 1, 0⟩) (by decide) (.lineFeed _) ?_
    refine .skipped (.blank nofun) (by decide) (.lineFeed _) ?_
    exact .skipped (@Skipped.comment [' '] (by decide) _) (by decide) .last .nil
  have hsnapshots := parse_written.1 _ _ (by simp [Metric.values, hhalf, hone, hzero]) hscript
  have hmetrics := parse_written.2.1 _ _ (by simp [Metric.values, hhalf, hone, hzero]) hfile
  exact ⟨hsnapshots, hmetrics⟩

end Text

end PathSelection
