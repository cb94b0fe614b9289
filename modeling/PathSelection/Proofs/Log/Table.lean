import PathSelection.Decimal.Text
import PathSelection.Log.Reward
import PathSelection.Log.Round
import PathSelection.Proofs.Decimal.Fixed
import PathSelection.Proofs.Log.Counts

namespace PathSelection

section Blocks

variable {β γ : Type} {blocks : List β} {f : β → List γ} {width row column : Nat}

/-- An entry of blocks of one width, by its number. -/
theorem getElem?_flatMap_of_length (hwidth : ∀ block ∈ blocks, (f block).length = width)
    (hcolumn : column < width) :
    (blocks.flatMap f)[row * width + column]? =
      blocks[row]?.bind fun block => (f block)[column]? := by
  induction blocks generalizing row with
  | nil => rfl
  | cons block blocks ih =>
    have hfirst : (f block).length = width := hwidth block List.mem_cons_self
    have hrest (row : Nat) : (blocks.flatMap f)[row * width + column]? =
        blocks[row]?.bind fun block => (f block)[column]? :=
      ih fun block' hmem => hwidth block' (List.mem_cons_of_mem block hmem)
    rw [List.flatMap_cons]
    cases row with
    | zero =>
      rw [Nat.zero_mul, Nat.zero_add, List.getElem?_append_left (hfirst.symm ▸ hcolumn)]
      rfl
    | succ row =>
      have hshift : (row + 1) * width + column = (f block).length + (row * width + column) := by
        rw [hfirst, Nat.succ_mul]
        omega
      rw [hshift, List.getElem?_append_right (Nat.le_add_right _ _), Nat.add_sub_cancel_left,
        hrest, List.getElem?_cons_succ]

theorem length_flatMap_of_length (hwidth : ∀ block ∈ blocks, (f block).length = width) :
    (blocks.flatMap f).length = blocks.length * width := by
  induction blocks with
  | nil => rw [List.flatMap_nil, List.length_nil, List.length_nil, Nat.zero_mul]
  | cons block blocks ih =>
    rw [List.flatMap_cons, List.length_append, hwidth block List.mem_cons_self,
      ih fun block' hmem => hwidth block' (List.mem_cons_of_mem block hmem), List.length_cons,
      Nat.succ_mul, Nat.add_comm]

end Blocks

namespace RoundLog

variable {α : Type} {policies paths policy path : Nat}

theorem length_grid (policies paths : Nat) (value : Nat → Nat → α) :
    (grid policies paths value).length = policies * paths := by
  have hwidth : ∀ p ∈ List.range policies, ((List.range paths).map (value p)).length = paths := by
    intro p _
    rw [List.length_map, List.length_range]
  unfold grid
  rw [length_flatMap_of_length hwidth, List.length_range]

theorem getElem?_grid (hpolicy : policy < policies) (hpath : path < paths)
    (value : Nat → Nat → α) :
    (grid policies paths value)[policy * paths + path]? = some (value policy path) := by
  unfold grid
  rw [getElem?_flatMap_of_length _ hpath, List.getElem?_range hpolicy, Option.bind_some,
    List.getElem?_map, List.getElem?_range hpath, Option.map_some]
  intro p _
  rw [List.length_map, List.length_range]

end RoundLog

section Text

/-- The lines of a text are read back, and after the last line feed there is nothing. -/
theorem splitOn_lines {lines : List String} (hlines : ∀ line ∈ lines, '\n' ∉ line.toList) :
    (String.join (lines.map (· ++ "\n"))).toList.splitOn '\n' =
      lines.map String.toList ++ [[]] := by
  rw [String.toList_join]
  induction lines with
  | nil => rfl
  | cons line lines ih =>
    have hline : (line ++ "\n").toList = line.toList ++ ['\n'] := String.toList_append
    have hrest := ih fun line' hmem => hlines line' (List.mem_cons_of_mem line hmem)
    rw [List.map_cons, List.flatMap_cons, hline, List.append_assoc, List.singleton_append,
      List.splitOn_append_cons_self, List.splitOn_eq_singleton (hlines line List.mem_cons_self),
      hrest]
    rfl

/-- The fields of a row are read back. -/
theorem splitOn_fields {fields : List String} (hne : fields ≠ [])
    (hfields : ∀ field ∈ fields, ' ' ∉ field.toList) :
    (String.intercalate " " fields).toList.splitOn ' ' = fields.map String.toList := by
  rw [String.toList_intercalate]
  apply List.splitOn_intercalate
  · rw [List.forall_mem_map]
    exact hfields
  · exact fun h => hne (List.map_eq_nil_iff.mp h)

theorem isBlank_of_mem_toString {n : Nat} {c : Char} (hc : c ∈ (toString n).toList) :
    Text.isBlank c = false := by
  rw [Nat.toString_eq_repr, Nat.toList_repr] at hc
  exact Text.isBlank_of_isDigit (Decimal.isDigit_of_mem_digits hc)

/-- There is no blank in the fields of a row. -/
theorem isBlank_of_mem_field {n : Nat} {values : List Float} {field : String} {c : Char}
    (hfield : field ∈ toString n :: values.map (NumberText.fixed 6)) (hc : c ∈ field.toList) :
    Text.isBlank c = false := by
  rcases List.mem_cons.mp hfield with rfl | hfield
  · exact isBlank_of_mem_toString hc
  · obtain ⟨x, -, rfl⟩ := List.mem_map.mp hfield
    exact Decimal.isBlank_of_mem_fixed hc

theorem not_mem_intercalate {c : Char} {separator : String} {fields : List String}
    (hseparator : c ∉ separator.toList) (hfields : ∀ field ∈ fields, c ∉ field.toList) :
    c ∉ (String.intercalate separator fields).toList := by
  rw [String.toList_intercalate]
  induction fields with
  | nil => exact List.not_mem_nil
  | cons field fields ih =>
    have hfield : c ∉ field.toList := hfields field List.mem_cons_self
    have hrest := ih fun field' hmem => hfields field' (List.mem_cons_of_mem field hmem)
    rw [List.map_cons]
    cases fields with
    | nil =>
      rw [List.map_nil, List.intercalate_singleton]
      exact hfield
    | cons next fields =>
      rw [List.map_cons, List.intercalate_cons_cons, List.mem_append, List.mem_append]
      rw [List.map_cons] at hrest
      tauto

/-- The lines above the rows: how many repetitions there are, the policies, and the names of the
columns, of which each policy has one for each quantity. -/
def headerLines (before after label : String) (quantities names : List String)
    (repetitions : Nat) : List String :=
  [before ++ toString repetitions ++ after] ++
    (names.zipIdx.map fun (name, p) => label ++ toString p ++ " " ++ name) ++
    ["#results:", String.intercalate " " ("#T" :: quantities.flatMap fun quantity =>
      names.map fun name => quantity ++ "(" ++ name ++ ")")]

/-- A header is free of line feeds, if the names are. -/
theorem newline_not_mem_headerLines {before after label : String} {quantities names : List String}
    (hbefore : '\n' ∉ before.toList) (hafter : '\n' ∉ after.toList)
    (hlabel : '\n' ∉ label.toList) (hquantities : ∀ quantity ∈ quantities, '\n' ∉ quantity.toList)
    (hnames : ∀ name ∈ names, '\n' ∉ name.toList) (repetitions : Nat) :
    ∀ line ∈ headerLines before after label quantities names repetitions, '\n' ∉ line.toList := by
  have hnumber (n : Nat) : '\n' ∉ (toString n).toList := fun h =>
    absurd (isBlank_of_mem_toString h) (by decide)
  unfold headerLines
  rw [List.forall_mem_append, List.forall_mem_append]
  refine ⟨⟨List.forall_mem_singleton.mpr ?_, ?_⟩, List.forall_mem_cons.mpr ⟨by decide, ?_⟩⟩
  · simp only [String.toList_append, List.mem_append, not_or]
    exact ⟨⟨hbefore, hnumber repetitions⟩, hafter⟩
  · rw [List.forall_mem_map]
    rintro ⟨name, p⟩ hmem
    have hname := hnames name (List.fst_mem_of_mem_zipIdx hmem)
    simp only [String.toList_append, List.mem_append, not_or]
    exact ⟨⟨⟨hlabel, hnumber p⟩, by decide⟩, hname⟩
  · rw [List.forall_mem_singleton]
    apply not_mem_intercalate (by decide)
    rw [List.forall_mem_cons]
    refine ⟨by decide, fun field hfield => ?_⟩
    obtain ⟨quantity, hquantity, hfield⟩ := List.mem_flatMap.mp hfield
    obtain ⟨name, hname, rfl⟩ := List.mem_map.mp hfield
    simp only [String.toList_append, List.mem_append, not_or]
    exact ⟨⟨⟨hquantities quantity hquantity, by decide⟩, hnames name hname⟩, by decide⟩

/-- A row of a log: the number of a round, counted from one, and numbers with six places. -/
def rowText (round : Nat) (values : List Float) : String :=
  String.intercalate " " (toString (round + 1) :: values.map (NumberText.fixed 6))

theorem newline_not_mem_rowText (round : Nat) (values : List Float) :
    '\n' ∉ (rowText round values).toList := by
  apply not_mem_intercalate (by decide)
  intro field hfield hmem
  exact absurd (isBlank_of_mem_field hfield hmem) (by decide)

theorem splitOn_rowText (round : Nat) (values : List Float) :
    (rowText round values).toList.splitOn ' ' = (toString (round + 1)).toList ::
      values.map fun x => (NumberText.fixed 6 x).toList := by
  unfold rowText
  rw [splitOn_fields (List.cons_ne_nil _ _), List.map_cons, List.map_map]
  · rfl
  · intro field hfield hmem
    exact absurd (isBlank_of_mem_field hfield hmem) (by decide)

/-- The fields of a row: the number of a round, counted from one, and after it four quantities, one
after the other, each for all paths of all policies. -/
structure IsRow (policies paths : Nat) (value : Fin 4 → Nat → Nat → Float) (round : Nat)
    (fields : List (List Char)) : Prop where
  length_eq : fields.length = 1 + 4 * policies * paths
  number_eq : fields[0]? = some (toString (round + 1)).toList
  cell_eq : ∀ (s : Fin 4) (p i : Nat), p < policies → i < paths →
    fields[1 + (s * policies + p) * paths + i]? = some (NumberText.fixed 6 (value s p i)).toList

/-- A text that is a table: below the lines of a header there is a row for each round, and nothing
follows the last line feed. -/
def IsTable (header : List String) (rounds : Nat) (isRow : Nat → List (List Char) → Prop)
    (text : String) : Prop :=
  ∃ rows : List (List Char),
    text.toList.splitOn '\n' = header.map String.toList ++ rows ++ [[]] ∧ rows.length = rounds ∧
    ∀ t row, rows[t]? = some row → isRow t (row.splitOn ' ')

theorem IsRow.congr {policies paths round : Nat} {value value' : Fin 4 → Nat → Nat → Float}
    {fields : List (List Char)} (h : IsRow policies paths value round fields)
    (hvalue : ∀ s, ∀ p < policies, ∀ i < paths, value s p i = value' s p i) :
    IsRow policies paths value' round fields := by
  refine ⟨h.length_eq, h.number_eq, fun s p i hp hi => ?_⟩
  rw [← hvalue s p hp i hi]
  exact h.cell_eq s p i hp hi

theorem IsTable.mono {header : List String} {rounds : Nat}
    {isRow isRow' : Nat → List (List Char) → Prop} {text : String}
    (h : IsTable header rounds isRow text)
    (hrow : ∀ t < rounds, ∀ fields, isRow t fields → isRow' t fields) :
    IsTable header rounds isRow' text := by
  obtain ⟨rows, htext, hlength, hrows⟩ := h
  refine ⟨rows, htext, hlength, fun t row hfound => ?_⟩
  have hlt : t < rounds := hlength ▸ (List.getElem?_eq_some_iff.mp hfound).1
  exact hrow t hlt _ (hrows t row hfound)

theorem isRow_of_values {policies paths round : Nat} {value : Fin 4 → Nat → Nat → Float}
    {values : List Float} (hlength : values.length = 4 * (policies * paths))
    (hvalue : ∀ (s : Fin 4) (p i : Nat), p < policies → i < paths →
      values[(s * policies + p) * paths + i]? = some (value s p i)) :
    IsRow policies paths value round ((rowText round values).toList.splitOn ' ') := by
  rw [splitOn_rowText]
  refine ⟨?_, rfl, fun s p i hp hi => ?_⟩
  · rw [List.length_cons, List.length_map, hlength, Nat.add_comm, Nat.mul_assoc]
  · rw [Nat.add_assoc, Nat.add_comm 1, List.getElem?_cons_succ, List.getElem?_map,
      hvalue s p i hp hi, Option.map_some]

/-- A header and a row for each round are read back, line by line and field by field. -/
theorem isTable_join {header : List String} {rounds : Nat} {values : Nat → List Float}
    {isRow : Nat → List (List Char) → Prop} (hheader : ∀ line ∈ header, '\n' ∉ line.toList)
    (hrow : ∀ t < rounds, isRow t ((rowText t (values t)).toList.splitOn ' ')) :
    IsTable header rounds isRow (String.join ((header ++ (List.range rounds).map fun t =>
      rowText t (values t)).map (· ++ "\n"))) := by
  refine ⟨(List.range rounds).map fun t => (rowText t (values t)).toList, ?_, ?_, ?_⟩
  · rw [splitOn_lines, List.map_append, List.map_map]
    · rfl
    · rw [List.forall_mem_append, List.forall_mem_map]
      exact ⟨hheader, fun t _ => newline_not_mem_rowText t (values t)⟩
  · rw [List.length_map, List.length_range]
  · intro t row hfound
    rw [List.getElem?_map] at hfound
    obtain ⟨round, hround, rfl⟩ := Option.map_eq_some_iff.mp hfound
    obtain ⟨hlt, rfl⟩ := List.getElem?_eq_some_iff.mp hround
    rw [List.length_range] at hlt
    rw [List.getElem_range]
    exact hrow t hlt

end Text

end PathSelection
