import PathSelection.Lp.Matrix
/-!
Linear programs over the unit box: all rows but the last bound a linear form from above, the last
one fixes it, and each variable lies in `[0, 1]`. Rows of zeros are decided here; the others are
solved by an engine, about which nothing is assumed.
-/
namespace PathSelection.Lp

/-- Whether the objective is to be large or small. -/
inductive Direction where
  | maximize
  | minimize
  deriving Repr, DecidableEq

/-- How a linear form is compared with its bound. -/
inductive Relation where
  | atMost
  | equal
  deriving Repr, DecidableEq

/-- One condition on the variables. -/
structure Row (α : Type) where
  coefficients : List α
  relation : Relation
  bound : α
  deriving Repr, DecidableEq

/-- What an engine is given: an objective with one coefficient for each variable, and conditions.
Each variable lies in `[0, 1]`. -/
structure Problem (α : Type) where
  direction : Direction
  objective : List α
  rows : List (Row α)
  deriving Repr, DecidableEq

/-- A point and the value of the objective there. -/
structure Solution (α : Type) where
  point : List α
  objective : α
  deriving Repr, DecidableEq

/-- A method of solving problems: an optimal solution, or the reason why there is none. -/
structure Engine (α : Type) where
  solve : Problem α → Except String (Solution α)

/-- Why a program has no solution. -/
inductive Failure (α : Type) where
  | emptyRow (row : Nat) (bound : α)
  | engine (reason : String)
  deriving Repr, DecidableEq

def Failure.message {α : Type} [NumberText α] : Failure α → String
  | .emptyRow row bound =>
    "row " ++ toString row ++ " is empty and cannot satisfy rhs " ++ NumberText.plain bound
  | .engine reason => reason

/-- A linear program. There is one bound for each row but the last, whose value is `total`. -/
structure Program (α : Type) where
  matrix : Matrix α
  bounds : List α
  costs : List α
  total : α
  direction : Direction
  deriving Repr, DecidableEq

variable {α : Type} [Scalar α]

/-- A linear program whose dimensions fit together. -/
def Program.new (matrix : Matrix α) (bounds costs : List α) (total : α)
    (direction : Direction) : Except (Error α) (Program α) :=
  if matrix.rows = 0 then .error (.invalidParameter "lp_rows" (.text "0"))
  else
    match ensureSameLength bounds.length (matrix.rows - 1) with
    | .error e => .error e
    | .ok () =>
      match ensureSameLength costs.length matrix.columns with
      | .error e => .error e
      | .ok () => .ok ⟨matrix, bounds, costs, total, direction⟩

omit [Scalar α] in
theorem Program.new_eq_ok {matrix : Matrix α} {bounds costs : List α}
    (hbounds : bounds.length + 1 = matrix.rows) (hcosts : costs.length = matrix.columns)
    (total : α) (direction : Direction) :
    Program.new matrix bounds costs total direction =
      .ok ⟨matrix, bounds, costs, total, direction⟩ := by
  have hrows : matrix.rows ≠ 0 := by omega
  have hbounds' : (ensureSameLength bounds.length (matrix.rows - 1) : Except (Error α) Unit) =
      .ok () := ensureSameLength_eq_ok.mpr (by omega)
  have hcosts' : (ensureSameLength costs.length matrix.columns : Except (Error α) Unit) =
      .ok () := ensureSameLength_eq_ok.mpr hcosts
  unfold Program.new
  rw [if_neg hrows, hbounds', hcosts']

/-- The condition of row `r`: an equality in the last row, an upper bound in the others. -/
def Program.row (p : Program α) (r : Nat) : Row α :=
  if r + 1 = p.matrix.rows then ⟨p.matrix.row r, .equal, p.total⟩
  else ⟨p.matrix.row r, .atMost, p.bounds.getD r 0⟩

/-- All conditions, in order. -/
def Program.rows (p : Program α) : List (Row α) := (List.range p.matrix.rows).map p.row

/-- Whether all coefficients are zero. -/
def Row.isEmpty (row : Row α) : Bool := row.coefficients.all (· == 0)

/-- Whether a row of zeros is satisfied. An equality allows for rounding. -/
def Row.holdsEmpty (row : Row α) : Bool :=
  match row.relation with
  | .atMost => decide (0 ≤ row.bound)
  | .equal => decide (Scalar.abs row.bound ≤ 1e-12)

/-- The rows that an engine has to look at, from row number `r` on: those that are not empty. An
empty row that is not satisfied makes the program fail. -/
def handedRows (r : Nat) : List (Row α) → Except (Failure α) (List (Row α))
  | [] => .ok []
  | row :: rest =>
    if row.isEmpty then
      if row.holdsEmpty then handedRows (r + 1) rest else .error (.emptyRow r row.bound)
    else
      match handedRows (r + 1) rest with
      | .error e => .error e
      | .ok rows => .ok (row :: rows)

/-- Solves a program with an engine. -/
def Program.solve (engine : Engine α) (p : Program α) : Except (Failure α) (Solution α) :=
  match handedRows 0 p.rows with
  | .error e => .error e
  | .ok rows =>
    match engine.solve ⟨p.direction, p.costs, rows⟩ with
    | .error reason => .error (.engine reason)
    | .ok solution => .ok solution

theorem Program.solve_eq_ok {engine : Engine α} {p : Program α} {solution : Solution α} :
    p.solve engine = .ok solution ↔ ∃ rows, handedRows 0 p.rows = .ok rows ∧
      engine.solve ⟨p.direction, p.costs, rows⟩ = .ok solution := by
  unfold Program.solve
  cases handedRows 0 p.rows with
  | error e => simp
  | ok rows =>
    dsimp only
    cases h : engine.solve ⟨p.direction, p.costs, rows⟩ <;> simp [h]

end PathSelection.Lp
