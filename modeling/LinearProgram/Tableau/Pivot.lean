import LinearProgram.Tableau.Basic

/-! # Pivoting

Loading an objective, choosing the entering column and the leaving row, and the exchange of one
basic column for another.
-/

namespace LinearProgram

variable {α : Type} [Scalar α]

namespace Row

/-- Subtracts a multiple of another row. -/
def subtract (r : Row α) (factor : α) (other : Row α) : Row α :=
  r.zipWith (fun x y => x - factor * y) other

/-- Results below a thousandth of the tolerance are zero. -/
def snap (tolerance x : α) : α := if Scalar.abs x < tolerance * 1e-3 then 0 else x

/-- Clears the pivot column from a row, given the scaled pivot row. -/
def eliminate (tolerance : α) (r pivotRow : Row α) (col : Nat) : Row α :=
  if r.entry col == 0 then r
  else ((r.subtract (r.entry col) pivotRow).map (snap tolerance)).set col 0

/-- Divides a row by its entry in the pivot column. -/
def scaleTo (col : Nat) (r : Row α) : Row α := (r.map (· / r.entry col)).set col 1

end Row

namespace Tableau

/-- Eliminates the basic column of a row from an objective row. -/
def priceOutRow (tolerance : α) (objective : Row α) (r : BasicRow α) : Row α :=
  let factor := objective.entry r.basic
  if tolerance < Scalar.abs factor then objective.subtract factor r.toRow else objective

/-- Loads costs, one per column, and prices out the current basis row by row. -/
def setObjective (tolerance : α) (costs : List α) (t : Tableau α) : Tableau α :=
  { t with objective := t.rows.foldl (priceOutRow tolerance) ⟨costs.map (-·), 0⟩ }

/-- How much a unit of a column improves the objective. -/
def gain (sense : Sense) (t : Tableau α) (col : Nat) : α :=
  match sense with
  | .maximize => -t.reducedCost col
  | .minimize => t.reducedCost col

/-- Keeps the better of the best column so far and the next one, which must be better by more than
the tolerance. -/
def betterColumn (tolerance : α) (best : Option (Nat × α)) (next : Nat × α) : Option (Nat × α) :=
  match best with
  | none => if tolerance < next.2 then some next else none
  | some (_, gain) => if gain + tolerance < next.2 then some next else best

/-- The column with the largest gain among those allowed, the first among near ties; none if no gain
exceeds the tolerance. -/
def enteringColumn (tolerance : α) (sense : Sense) (allowed : Nat → Bool) (t : Tableau α) :
    Option Nat :=
  ((((List.range t.columnCount).filter allowed).map fun col => (col, t.gain sense col)).foldl
    (betterColumn tolerance) none).map (·.1)

/-- The ratio of solution to entry in every row whose entry is positive. -/
def ratios (tolerance : α) (t : Tableau α) (col : Nat) : List (Option α) :=
  t.rows.map fun r =>
    if tolerance < r.entry col then some (r.solution / r.entry col) else none

/-- Keeps the lower of the lowest ratio so far and the next one, which must be lower by more than
the tolerance. -/
def lowerRatio (tolerance : α) (best : Option (Nat × α)) (next : Nat × α) : Option (Nat × α) :=
  match best with
  | none => some next
  | some (_, ratio) => if next.2 < ratio - tolerance then some next else best

/-- The row with the lowest ratio, the first among near ties. -/
def leavingRow (tolerance : α) (ratios : List (Option α)) : Option Nat :=
  ((ratios.zipIdx.filterMap fun (ratio, i) => ratio.map (i, ·)).foldl
    (lowerRatio tolerance) none).map (·.1)

/-- Makes a column basic in a row. -/
def pivot (tolerance : α) (t : Tableau α) (row col : Nat) : Tableau α :=
  match t.rows[row]? with
  | none => t
  | some r =>
    let pivotRow := r.scaleTo col
    let cleared (s : Row α) : Row α := s.eliminate tolerance pivotRow col
    { t with
      rows := (t.rows.map fun s => ⟨cleared s.toRow, s.basic⟩).set row ⟨pivotRow, col⟩
      objective := cleared t.objective }

end Tableau

end LinearProgram
