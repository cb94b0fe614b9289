import PathSelection.Error

namespace PathSelection

def innerProduct {α : Type} [Scalar α] (xs ys : List α) : α :=
  Scalar.sum (List.zipWith (· * ·) xs ys)

/-- The inner product of two lists, which must have equal lengths. -/
def dot {α : Type} [Scalar α] (xs ys : List α) : Except (Error α) α :=
  match ensureSameLength xs.length ys.length with
  | .error e => .error e
  | .ok () => .ok (innerProduct xs ys)

/-- A matrix with the given numbers of rows and columns; the entry in row `r` and column `c` is
number `r * columns + c`. -/
structure Matrix (α : Type) where
  rows : Nat
  columns : Nat
  entries : List α
  deriving Repr, DecidableEq

namespace Matrix

variable {α : Type}

/-- The matrix of zeros. -/
def zeros [Scalar α] (rows columns : Nat) : Matrix α :=
  ⟨rows, columns, List.replicate (rows * columns) 0⟩

/-- The matrix with the given rows, which all have the given length. -/
def ofRows (columns : Nat) (rows : List (List α)) : Matrix α :=
  ⟨rows.length, columns, rows.flatten⟩

/-- The entries of a row. -/
def row (a : Matrix α) (r : Nat) : List α := (a.entries.drop (r * a.columns)).take a.columns

/-- All rows. -/
def toRows (a : Matrix α) : List (List α) := (List.range a.rows).map a.row

/-- The entry in a row and a column. -/
def entry [Scalar α] (a : Matrix α) (r c : Nat) : α := a.entries.getD (r * a.columns + c) 0

/-- The matrix with one entry replaced. -/
def setEntry (a : Matrix α) (r c : Nat) (x : α) : Matrix α :=
  { a with entries := a.entries.set (r * a.columns + c) x }

/-- The matrix with one row replaced by numbers of the same count. -/
def replaceRow (a : Matrix α) (r : Nat) (values : List α) : Matrix α :=
  let start := r * a.columns
  { a with entries := a.entries.take start ++ values ++ a.entries.drop (start + a.columns) }

/-- The matrix with one entry value throughout a row. -/
def fillRow (a : Matrix α) (r : Nat) (x : α) : Matrix α :=
  a.replaceRow r (List.replicate a.columns x)

/-- Replaces a row. The length is checked before the row number. -/
def setRow (a : Matrix α) (r : Nat) (values : List α) : Except (Error α) (Matrix α) :=
  match ensureSameLength values.length a.columns with
  | .error e => .error e
  | .ok () =>
    match ensureBelow r a.rows with
    | .error e => .error e
    | .ok () => .ok (a.replaceRow r values)

theorem row_ofRows (columns : Nat) (rows : List (List α))
    (h : ∀ values ∈ rows, values.length = columns) (r : Nat) (hr : r < rows.length) :
    (ofRows columns rows).row r = rows[r] := by
  unfold ofRows row
  simp only
  induction rows generalizing r with
  | nil => simp at hr
  | cons values rest ih =>
    have hv : values.length = columns := h values (by simp)
    cases r with
    | zero =>
      simp only [Nat.zero_mul, List.drop_zero, List.flatten_cons, List.getElem_cons_zero]
      rw [List.take_append_of_le_length (by omega), List.take_of_length_le (by omega)]
    | succ r =>
      have hd : (values ++ rest.flatten).drop ((r + 1) * columns) =
          rest.flatten.drop (r * columns) := by
        rw [show (r + 1) * columns = values.length + r * columns by
          rw [Nat.add_mul, hv]; omega]
        rw [List.drop_append]
        simp
      simp only [List.flatten_cons, List.getElem_cons_succ]
      rw [hd]
      exact ih (fun w hw => h w (List.mem_cons_of_mem _ hw)) r (by simpa using hr)

end Matrix

end PathSelection
