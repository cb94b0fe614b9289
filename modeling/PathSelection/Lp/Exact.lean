import PathSelection.Decimal.Binary
import PathSelection.Lp.Simplex
/-!
Solving problems over the binary64 numbers without rounding. The simplex method runs in binary64
first. The basis that it ends with is then set up in rational numbers, where the method goes on
until the optimum is exact; only when rounding has led it astray it starts afresh. The exact optimum
is rounded in the end. A problem that is infeasible by no more than the tolerance keeps the answer
of the first run.
-/
namespace PathSelection.Lp.Exact

open Simplex

/-- The method in binary64. -/
def rounded : Method Float := ⟨1e-10, true⟩

/-- The method in rational numbers. -/
def exact : Method Rat := ⟨0, false⟩

/-- The problem in rational numbers, if all its numbers are finite. -/
def rational? (p : Problem Float) : Option (Problem Rat) := do
  let objective ← p.objective.mapM Decimal.toRat?
  let rows ← p.rows.mapM fun row => do
    let coefficients ← row.coefficients.mapM Decimal.toRat?
    let bound ← Decimal.toRat? row.bound
    pure (Row.mk coefficients row.relation bound)
  pure ⟨p.direction, objective, rows⟩

/-- The place of a coefficient that is not zero, in one of the given rows and one of the given
columns. It is in a row with as few such coefficients as possible, so that a pivot there changes
little. -/
def sparsest? (rows columns : List Nat) (d : Dictionary Rat) : Option (Nat × Nat) :=
  let choices := rows.filterMap fun r =>
    match columns.filter fun c => d.coefficient r c != 0 with
    | [] => none
    | c :: cs => some (cs.length, r, c)
  (choices.foldl (fun best (count, r, c) =>
    match best with
    | some (least, _, _) => if count < least then some (count, r, c) else best
    | none => some (count, r, c)) (none : Option (Nat × Nat × Nat))).map (·.2)

/-- Makes the variables of the given columns basic in place of the slacks of the given rows. Answers
none if these columns are dependent in these rows. -/
def exchange (rows columns : List Nat) : Nat → Dictionary Rat → Option (Dictionary Rat)
  | 0, d => some d
  | count + 1, d =>
    match sparsest? rows columns d with
    | none => none
    | some (r, c) => exchange (rows.erase r) (columns.erase c) count (d.pivot exact r c 0)

/-- The rational dictionary with the basis of another one. -/
def withBasis? (p : Problem Rat) (d : Dictionary Float) : Option (Dictionary Rat) :=
  let n := d.dimension
  let basic := (d.rows.toList.map BasicRow.number).filter (· < n)
  let tight := (d.columns.toList.map Column.number).filter (n ≤ ·)
  let values := d.point.zipIdx.map fun (x, j) =>
    if basic.contains j || decide (x < 0.5) then (0 : Rat) else 1
  exchange (tight.map (· - n)) basic basic.length (dictionaryAt p values)

/-- Sums up to this share of their terms are attributed to the rounding of the terms. -/
def noise : Rat := mkRat 1 0x200000000000

/-- Whether the reduced cost of column `c` has the right sign, up to noise. It is the cost of the
variable less the costs of the basic variables times their coefficients. -/
def isSettled (costs : Array Rat) (d : Dictionary Rat) (c : Nat) (column : Column Rat) : Bool :=
  let wrong := (d.canRise column && decide (column.cost < 0)) ||
    (d.canFall column && decide (0 < column.cost))
  if wrong then
    let terms := d.rows.foldl (fun sum row =>
      sum + size (costs.getD row.number 0 * row.coefficients.getD c 0))
        (size (costs.getD column.number 0))
    !decide (noise * terms < size column.cost)
  else true

/-- Whether no variable has a reason to move but the conditions. -/
def areSettled (p : Problem Rat) (d : Dictionary Rat) : Bool :=
  let costs := (costs p).toArray
  d.columns.zipIdx.all fun (column, c) => isSettled costs d c column

/-- Ends the method in rational numbers, from the basis of a dictionary if that is of use. -/
def finish (p : Problem Rat) (d : Dictionary Float) : Verdict × Dictionary Rat :=
  match withBasis? p d with
  | none => run exact p
  | some d => if areSettled p d then runFrom exact d else run exact p

/-- The answer that belongs to the end of a run in binary64. -/
def answer (p : Problem Float) (verdict : Verdict) (d : Dictionary Float) :
    Except String (Solution Float) :=
  match verdict with
  | .optimal => .ok ⟨d.point, product p.objective d.point⟩
  | .infeasible => .error "problem is infeasible"
  | .exhausted => .error "too many pivots"

/-- Whether a point satisfies a condition up to the tolerance, taken in relation to the terms. -/
def nearlyHolds (point : List Float) (row : Row Float) : Bool :=
  let excess := product row.coefficients point - row.bound
  let terms := product (row.coefficients.map size) (point.map size) + size row.bound
  let allowed := rounded.tolerance * terms
  match row.relation with
  | .atMost => decide (excess ≤ allowed)
  | .equal => decide (size excess ≤ allowed)

/-- Solves a problem. -/
def solve (p : Problem Float) : Except String (Solution Float) :=
  let (verdict, d) := run rounded p
  match rational? p with
  | none => answer p verdict d
  | some q =>
    match finish q d with
    | (.optimal, e) =>
      .ok ⟨e.point.map Decimal.ofRat, Decimal.ofRat (product q.objective e.point)⟩
    | (.infeasible, _) =>
      if p.rows.all (nearlyHolds d.point) then answer p verdict d else answer p .infeasible d
    | (.exhausted, _) => answer p verdict d

/-- The exact method as an engine. -/
def engine : Engine Float := ⟨solve⟩

end PathSelection.Lp.Exact
