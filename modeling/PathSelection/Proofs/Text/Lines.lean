import Mathlib.Data.List.Forall2
import PathSelection.Proofs.Text.Words

namespace PathSelection.Text

section Read

variable {β : Type} {read : List Char → Except LineFault β} {text : List (List Char)}

/-- The values are those of the significant lines, in order. -/
theorem readLines_eq_ok_iff {number : Nat} {values : List β} :
    readLines read number text = .ok values ↔
      List.Forall₂ (fun line value => read (trim line) = .ok value) (text.filter isSignificant)
        values := by
  induction text generalizing number values with
  | nil => simp [readLines, eq_comm]
  | cons line text ih =>
    rw [readLines]
    by_cases hline : isSignificant line = true
    · rw [if_pos hline, List.filter_cons_of_pos hline, List.forall₂_cons_left_iff]
      cases read (trim line) with
      | error fault => simp
      | ok value =>
        simp only [← @ih (number + 1), Except.ok.injEq]
        cases readLines read (number + 1) text with
        | error fault => simp
        | ok rest => simp [eq_comm]
    · rw [if_neg hline, List.filter_cons_of_neg hline]
      exact ih

theorem exists_line_of_readLines {number : Nat} {values : List β}
    (h : readLines read number text = .ok values) {value : β} (hvalue : value ∈ values) :
    ∃ line ∈ text, isSignificant line = true ∧ read (trim line) = .ok value := by
  obtain ⟨hlength, hget⟩ := List.forall₂_iff_get.mp (readLines_eq_ok_iff.mp h)
  obtain ⟨i, hi, rfl⟩ := List.getElem_of_mem hvalue
  have hi' : i < (text.filter isSignificant).length := hlength ▸ hi
  obtain ⟨hline, hsignificant⟩ := List.mem_filter.mp (List.getElem_mem hi')
  exact ⟨(text.filter isSignificant)[i], hline, hsignificant, hget i hi' hi⟩

/-- A text is read if each significant line is. -/
theorem exists_readLines_iff {number : Nat} :
    (∃ values, readLines read number text = .ok values) ↔
      ∀ line ∈ text, isSignificant line = true → ∃ value, read (trim line) = .ok value := by
  simp only [readLines_eq_ok_iff]
  induction text with
  | nil => simp
  | cons line text ih =>
    rw [List.forall_mem_cons, ← ih]
    by_cases hline : isSignificant line = true
    · simp only [List.filter_cons_of_pos hline, List.forall₂_cons_left_iff]
      constructor
      · rintro ⟨_, value, values, hvalue, hvalues, rfl⟩
        exact ⟨fun _ => ⟨value, hvalue⟩, values, hvalues⟩
      · rintro ⟨hvalue, values, hvalues⟩
        obtain ⟨value, hvalue⟩ := hvalue hline
        exact ⟨value :: values, value, values, hvalue, hvalues, rfl⟩
    · rw [List.filter_cons_of_neg hline]
      exact (and_iff_right fun h => absurd h hline).symm

/-- A significant line is the first one with a fault, if there are the lines `before` in front of it
and the first of these has the given number. -/
structure FirstFault (read : List Char → Except LineFault β) (number : Nat) (fault : Fault)
    (before : List (List Char)) (line : List Char) : Prop where
  line_eq : fault.line = number + before.length
  earlier : ∀ earlier ∈ before, isSignificant earlier = true →
    ∃ value, read (trim earlier) = .ok value
  significant : isSignificant line = true
  fault_eq : read (trim line) = .error fault.fault

theorem firstFault_cons_iff {number : Nat} {fault : Fault} {first line : List Char}
    {before : List (List Char)} :
    FirstFault read number fault (first :: before) line ↔
      (isSignificant first = true → ∃ value, read (trim first) = .ok value) ∧
        FirstFault read (number + 1) fault before line := by
  have hnumber : number + (first :: before).length = number + 1 + before.length := by
    rw [List.length_cons]
    omega
  constructor
  · rintro ⟨hnumber', hearlier, hline, hfault⟩
    obtain ⟨hfirst, hearlier⟩ := List.forall_mem_cons.mp hearlier
    exact ⟨hfirst, hnumber'.trans hnumber, hearlier, hline, hfault⟩
  · rintro ⟨hfirst, hnumber', hearlier, hline, hfault⟩
    exact ⟨hnumber'.trans hnumber.symm, List.forall_mem_cons.mpr ⟨hfirst, hearlier⟩, hline, hfault⟩

/-- What is reported is the first fault, with the number of its line among all lines. -/
theorem readLines_eq_error_iff {number : Nat} {fault : Fault} :
    readLines read number text = .error fault ↔
      ∃ before line after, text = before ++ line :: after ∧
        FirstFault read number fault before line := by
  constructor
  · intro h
    induction text generalizing number with
    | nil => exact absurd h nofun
    | cons first text ih =>
      -- A line that was read or skipped stands before the first fault.
      have hlater (hfirst : isSignificant first = true → ∃ value, read (trim first) = .ok value)
          (hrest : readLines read (number + 1) text = .error fault) :
          ∃ before line after, first :: text = before ++ line :: after ∧
            FirstFault read number fault before line := by
        obtain ⟨before, line, after, rfl, hfault⟩ := ih hrest
        exact ⟨first :: before, line, after, rfl, firstFault_cons_iff.mpr ⟨hfirst, hfault⟩⟩
      rw [readLines] at h
      split at h
      · next hfirst =>
        split at h
        · next found hread =>
          obtain rfl := Except.error.inj h
          exact ⟨[], first, text, rfl, rfl, nofun, hfirst, hread⟩
        · next value hread =>
          split at h
          · next hrest =>
            obtain rfl := Except.error.inj h
            exact hlater (fun _ => ⟨value, hread⟩) hrest
          · exact absurd h nofun
      · next hfirst => exact hlater (fun hsignificant => absurd hsignificant hfirst) h
  · rintro ⟨before, line, after, rfl, h⟩
    induction before generalizing number with
    | nil =>
      obtain ⟨number', fault⟩ := fault
      obtain rfl : number' = number := h.line_eq
      rw [List.nil_append, readLines, if_pos h.significant, h.fault_eq]
    | cons first before ih =>
      obtain ⟨hfirst, hlater⟩ := firstFault_cons_iff.mp h
      rw [List.cons_append, readLines, ih hlater]
      split
      · next hsignificant =>
        obtain ⟨value, hread⟩ := hfirst hsignificant
        rw [hread]
      · rfl

end Read

section Split

variable {line : List Char}

theorem linesFrom_append (hline : '\n' ∉ line) (front text : List Char) :
    linesFrom front (line ++ text) = linesFrom (front ++ line) text := by
  induction line generalizing front with
  | nil => rw [List.append_nil, List.nil_append]
  | cons c line ih =>
    rw [List.mem_cons, not_or] at hline
    obtain ⟨hc, hline⟩ := hline
    rw [List.cons_append, linesFrom, if_neg (Ne.symm hc), ih hline, List.append_assoc,
      List.singleton_append]

theorem lines_append_lineFeed (hline : '\n' ∉ line) (text : List Char) :
    lines (line ++ '\n' :: text) = dropReturn line :: lines text := by
  rw [lines, linesFrom_append hline, linesFrom, if_pos rfl]
  rfl

theorem lines_of_not_mem (hline : '\n' ∉ line) : lines line = if line = [] then [] else [line] := by
  rw [lines, ← List.append_nil line, linesFrom_append hline, List.nil_append, List.append_nil]
  rfl

theorem trim_dropReturn (line : List Char) : trim (dropReturn line) = trim line := by
  unfold dropReturn
  split
  · next hreturn =>
    obtain ⟨line, rfl⟩ := List.getLast?_eq_some_iff.mp hreturn
    have hgap : IsGap ['\r'] := by decide
    rw [List.dropLast_concat, trim_append_gap hgap]
  · rfl

/-- How a line ends before the rest of a text: with a line feed, perhaps after a carriage return, or
with the text itself. -/
inductive LineEnd : List Char → List Char → Prop
  | lineFeed (text : List Char) : LineEnd ['\n'] text
  | returnLineFeed (text : List Char) : LineEnd ['\r', '\n'] text
  | last : LineEnd [] []

end Split

section Written

variable {β : Type} {read : List Char → Except LineFault β}

theorem readLines_congr {first second : List Char} (h : trim first = trim second) (number : Nat)
    (text : List (List Char)) :
    readLines read number (first :: text) = readLines read number (second :: text) := by
  have hsignificant : isSignificant first = isSignificant second := by
    unfold isSignificant
    rw [h]
  rw [readLines, readLines, hsignificant, h]

theorem readLines_lines_append {line ending text : List Char} (hline : '\n' ∉ line)
    (hend : LineEnd ending text) (number : Nat) :
    readLines read number (lines (line ++ ending ++ text)) =
      readLines read number (line :: lines text) := by
  cases hend with
  | lineFeed =>
    rw [List.append_assoc, List.singleton_append, lines_append_lineFeed hline]
    exact readLines_congr (trim_dropReturn line) number (lines text)
  | returnLineFeed =>
    have hreturn : '\n' ∉ line ++ ['\r'] := by simpa using hline
    have hgap : IsGap ['\r'] := by decide
    have htext : line ++ ['\r', '\n'] ++ text = (line ++ ['\r']) ++ '\n' :: text := by simp
    rw [htext, lines_append_lineFeed hreturn]
    have htrim : trim (dropReturn (line ++ ['\r'])) = trim line :=
      (trim_dropReturn _).trans (trim_append_gap hgap line)
    exact readLines_congr htrim number (lines text)
  | last =>
    rw [List.append_nil, List.append_nil, lines_of_not_mem hline]
    -- An empty line at the end of a text is none, and it would be skipped.
    split
    · next hempty =>
      subst hempty
      rfl
    · rfl

/-- A line that is blank or whose first character that is not blank is a number sign. -/
inductive Skipped : List Char → Prop
  | blank {gap : List Char} (hgap : IsGap gap) : Skipped gap
  | comment {gap : List Char} (hgap : IsGap gap) (rest : List Char) : Skipped (gap ++ '#' :: rest)

theorem Skipped.isSignificant {line : List Char} (h : Skipped line) :
    isSignificant line = false := by
  cases h with
  | blank hgap => exact isSignificant_of_gap hgap
  | comment hgap rest =>
    rw [← Bool.not_eq_true, isSignificant_iff, find?_gap_append hgap,
      List.find?_cons_of_pos (by rfl)]
    simp

/-- A text with a line for each of some values, in order, and with any lines that are skipped
before, between and after them. -/
inductive Written (row : β → List Char → Prop) : List β → List Char → Prop
  | nil : Written row [] []
  | skipped {values : List β} {line ending text : List Char} (hskipped : Skipped line)
      (hline : '\n' ∉ line) (hend : LineEnd ending text) (h : Written row values text) :
      Written row values (line ++ ending ++ text)
  | row {value : β} {values : List β} {line ending text : List Char} (hrow : row value line)
      (hline : '\n' ∉ line) (hend : LineEnd ending text) (h : Written row values text) :
      Written row (value :: values) (line ++ ending ++ text)

/-- A written text is read back if a line for any of the values is. -/
theorem Written.readLines_eq {row : β → List Char → Prop} {values : List β} {text : List Char}
    (h : Written row values text)
    (hrow : ∀ value ∈ values, ∀ line, row value line →
      isSignificant line = true ∧ read (trim line) = .ok value) (number : Nat) :
    readLines read number (lines text) = .ok values := by
  induction h generalizing number with
  | nil => rfl
  | skipped hskipped hline hend _ ih =>
    rw [readLines_lines_append hline hend, readLines, hskipped.isSignificant,
      if_neg Bool.false_ne_true]
    exact ih hrow (number + 1)
  | row hvalue hline hend _ ih =>
    obtain ⟨hfirst, hrow⟩ := List.forall_mem_cons.mp hrow
    obtain ⟨hsignificant, hread⟩ := hfirst _ hvalue
    rw [readLines_lines_append hline hend, readLines, if_pos hsignificant, hread,
      ih hrow (number + 1)]

end Written

end PathSelection.Text
