import PathSelection.Lp.Program
/-!
The dual simplex method for variables with ranges. A dictionary has one row for each condition: a
basic variable plus a linear form in the other variables is constant. The other, nonbasic, variables
stand at ends of their ranges. At the start each variable of the problem stands where the objective
wants it, so that the point is optimal but for the conditions; each pivot moves one basic variable
that is out of its range to the end that it passed, and keeps the signs of the reduced costs.
-/
namespace PathSelection.Lp

/-- The numbers that pivots are computed with. -/
class PivotNumber (α : Type) extends Add α, Sub α, Mul α, Div α, Neg α, LT α, BEq α where
  zero : α
  one : α
  decidableLt : DecidableRel (fun a b : α => a < b)

instance pivotFloat : PivotNumber Float where
  zero := 0
  one := 1
  decidableLt := inferInstance

instance pivotRat : PivotNumber Rat where
  zero := 0
  one := 1
  decidableLt := inferInstance

namespace Simplex

variable {α : Type} [PivotNumber α]

instance decidableLt (a b : α) : Decidable (a < b) := PivotNumber.decidableLt a b

instance (priority := low) ofNatZero : OfNat α 0 := ⟨PivotNumber.zero⟩

instance (priority := low) ofNatOne : OfNat α 1 := ⟨PivotNumber.one⟩

/-- The size of a number. -/
def size (a : α) : α := if a < 0 then -a else a

/-- How pivots are chosen. -/
structure Method (α : Type) where
  /-- Distances up to this size count as zero. -/
  tolerance : α
  /-- Whether the violations of rows are compared in relation to their norms. -/
  weighted : Bool

/-- The values that a variable may have; without an upper end it may be arbitrarily large. -/
structure Span (α : Type) where
  lower : α
  upper : Option α
  deriving Repr

/-- A nonbasic variable. Its reduced cost is the change of the objective for each unit that it
grows. -/
structure Column (α : Type) where
  number : Nat
  value : α
  cost : α
  deriving Repr

/-- A basic variable with its coefficients for all columns. The norm of a weighted method is the
squared length of the row in the inverse of the basis. -/
structure BasicRow (α : Type) where
  number : Nat
  value : α
  coefficients : Array α
  norm : α
  deriving Repr

/-- The state of the method for a problem with `dimension` variables. These have the numbers from
zero on, the slacks of the conditions follow; `spans` has an entry for each. -/
structure Dictionary (α : Type) where
  dimension : Nat
  spans : Array (Span α)
  rows : Array (BasicRow α)
  columns : Array (Column α)
  deriving Repr

namespace Dictionary

/-- The span of a variable. -/
def span (d : Dictionary α) (number : Nat) : Span α := d.spans.getD number ⟨0, none⟩

/-- The coefficient of column `c` in row `r`. -/
def coefficient (d : Dictionary α) (r c : Nat) : α :=
  match d.rows[r]? with
  | some row => row.coefficients.getD c 0
  | none => 0

/-- Whether a variable of the given value may fall. -/
def canFall (d : Dictionary α) (column : Column α) : Bool :=
  decide ((d.span column.number).lower < column.value)

/-- Whether a variable of the given value may rise. -/
def canRise (d : Dictionary α) (column : Column α) : Bool :=
  match (d.span column.number).upper with
  | none => true
  | some upper => decide (column.value < upper)

end Dictionary

/-- The squared length of the row of the inverse basis: its entries are the coefficients of the
slacks, and the slack of a row has coefficient one in it while it is basic. -/
def rowNorm (dimension number : Nat) (columns : Array (Column α)) (coefficients : Array α) : α :=
  (Array.zipWith (fun column a => if column.number < dimension then 0 else a * a) columns
    coefficients).foldl (· + ·) (if number < dimension then 0 else 1)

/-- How far a value lies outside a span, and the end that it passed. -/
def violation? (method : Method α) (span : Span α) (value : α) : Option (α × α) :=
  if value < span.lower - method.tolerance then some (span.lower - value, span.lower)
  else
    match span.upper with
    | none => none
    | some upper =>
      if upper + method.tolerance < value then some (value - upper, upper) else none

/-- The row whose violation is largest in relation to its norm, the first one of several, and the
end of the span to which its variable has to move. -/
def Dictionary.leaving? (method : Method α) (d : Dictionary α) : Option (Nat × α) :=
  (d.rows.zipIdx.foldl (fun best (row, r) =>
    match violation? method (d.span row.number) row.value with
    | none => best
    | some (distance, target) =>
      let score := distance * distance / row.norm
      match best with
      | some (most, _, _) => if most < score then some (score, r, target) else best
      | none => some (score, r, target)) (none : Option (α × Nat × α))).map (·.2)

/-- Whether a nonbasic variable can move so that the basic variable of the row rises or falls. -/
def Dictionary.canEnter (method : Method α) (d : Dictionary α) (rises : Bool) (column : Column α)
    (a : α) : Bool :=
  if a == 0 || decide (size a < method.tolerance) then false
  else if decide (a < 0) == rises then d.canRise column
  else d.canFall column

/-- The reduced cost of a nonbasic variable, with zero in place of a wrong sign. -/
def Dictionary.settledCost (d : Dictionary α) (column : Column α) : α :=
  if !d.canFall column && decide (column.cost < 0) then 0
  else if !d.canRise column && decide (0 < column.cost) then 0
  else column.cost

/-- The column that enters the basis for a row. Of all columns whose reduced costs vanish first, up
to the tolerance, it is one with the largest coefficient, and among these the one of the
lowest-numbered variable. -/
def Dictionary.entering? (method : Method α) (d : Dictionary α) (rises : Bool)
    (row : BasicRow α) : Option Nat :=
  let candidates := ((d.columns.zip row.coefficients).zipIdx.filter
    fun ((column, a), _) => d.canEnter method rises column a).map
      fun ((column, a), c) => (c, column.number, size (d.settledCost column), size a)
  -- The first reduced cost to vanish, were each larger by the tolerance, bounds the step.
  let limit := candidates.foldl (fun limit (_, _, cost, a) =>
    let step := (cost + method.tolerance) / a
    match limit with
    | some least => if step < least then some step else limit
    | none => some step) (none : Option α)
  match limit with
  | none => none
  | some limit =>
    (candidates.foldl (fun best (c, number, cost, a) =>
      if limit < cost / a then best
      else
        match best with
        | some (_, least, most) =>
          if most < a ∨ (most == a) = true ∧ number < least then some (c, number, a) else best
        | none => some (c, number, a)) (none : Option (Nat × Nat × α))).map (·.1)

/-- Exchanges the basic variable of row `r`, which moves to `target`, for the nonbasic variable of
column `c`. Rows without a coefficient in this column stay as they are. -/
def Dictionary.pivot (method : Method α) (d : Dictionary α) (r c : Nat) (target : α) :
    Dictionary α :=
  match d.rows[r]?, d.columns[c]? with
  | some row, some column =>
    let pivot := row.coefficients.getD c 0
    -- What the entering variable has to grow by so that the leaving one comes to its target.
    let change := (row.value - target) / pivot
    let price := column.cost / pivot
    -- From here on column `c` stands for the variable that leaves the basis.
    let columns := (Array.zipWith (fun column a =>
      if a == 0 then column else { column with cost := column.cost - price * a }) d.columns
        row.coefficients).setIfInBounds c ⟨row.number, target, -price⟩
    let norm (number : Nat) (coefficients : Array α) : α :=
      if method.weighted then rowNorm d.dimension number columns coefficients else 1
    let solved := (row.coefficients.map fun a => if a == 0 then a else a / pivot).setIfInBounds c
      (1 / pivot)
    let rows := d.rows.map fun other =>
      let a := other.coefficients.getD c 0
      if a == 0 then other
      else
        let factor := a / pivot
        let coefficients := (Array.zipWith (fun x y => if y == 0 then x else x - factor * y)
          other.coefficients row.coefficients).setIfInBounds c (-factor)
        ⟨other.number, other.value - change * a, coefficients, norm other.number coefficients⟩
    let entered : BasicRow α :=
      ⟨column.number, column.value + change, solved, norm column.number solved⟩
    { d with rows := rows.setIfInBounds r entered, columns := columns }
  | _, _ => d

/-- How pivoting ends. -/
inductive Verdict where
  /-- All conditions are satisfied. -/
  | optimal
  /-- A condition is violated at each point. -/
  | infeasible
  /-- There were more pivots than the method allows. -/
  | exhausted
  deriving Repr, DecidableEq

/-- Pivots until every basic variable is in its span. -/
def restore (method : Method α) : Nat → Dictionary α → Verdict × Dictionary α
  | 0, d => (.exhausted, d)
  | fuel + 1, d =>
    match d.leaving? method with
    | none => (.optimal, d)
    | some (r, target) =>
      match d.rows[r]? with
      | none => (.optimal, d)
      | some row =>
        match d.entering? method (decide (row.value < target)) row with
        | none => (.infeasible, d)
        | some c => restore method fuel (d.pivot method r c target)

/-- The costs of a problem when the objective is to be made small. -/
def costs (p : Problem α) : List α :=
  match p.direction with
  | .maximize => p.objective.map fun c => -c
  | .minimize => p.objective

/-- The values of the slack of a condition. -/
def slackSpan : Relation → Span α
  | .atMost => ⟨0, none⟩
  | .equal => ⟨0, some 0⟩

/-- The sum of the products of two lists of numbers. -/
def product (xs ys : List α) : α := (List.zipWith (· * ·) xs ys).foldl (· + ·) 0

/-- The dictionary in which all slacks are basic and each variable has the given value, which is an
end of the unit interval. -/
def dictionaryAt (p : Problem α) (values : List α) : Dictionary α :=
  let columns := (List.zipWith Prod.mk (costs p) values).zipIdx.map fun ((cost, value), j) =>
    Column.mk j value cost
  let n := columns.length
  { dimension := n
    spans := (columns.map (fun _ => Span.mk (0 : α) (some 1)) ++
      p.rows.map (slackSpan ∘ Row.relation)).toArray
    rows := (p.rows.zipIdx.map fun (row, i) =>
      ⟨n + i, row.bound - product row.coefficients values, row.coefficients.toArray, 1⟩).toArray
    columns := columns.toArray }

/-- The dictionary in which all slacks are basic, and each variable stands at the end of the unit
interval where it costs least. -/
def initial (p : Problem α) : Dictionary α :=
  dictionaryAt p ((costs p).map fun cost => if cost < 0 then 1 else 0)

/-- The point of a dictionary, in the variables of the problem. -/
def Dictionary.point (d : Dictionary α) : List α :=
  let standing := d.columns.foldl (fun values column =>
    values.setIfInBounds column.number column.value) (Array.replicate d.dimension (0 : α))
  (d.rows.foldl (fun values row => values.setIfInBounds row.number row.value) standing).toList

/-- How many pivots are made at most. -/
def pivotBound (d : Dictionary α) : Nat := 200 * (d.rows.size + d.columns.size + 10)

/-- Pivots from a dictionary whose reduced costs have the right signs. -/
def runFrom (method : Method α) (d : Dictionary α) : Verdict × Dictionary α :=
  restore method (pivotBound d) d

/-- Runs the method on a problem. -/
def run (method : Method α) (p : Problem α) : Verdict × Dictionary α :=
  runFrom method (initial p)

end Simplex

end PathSelection.Lp
