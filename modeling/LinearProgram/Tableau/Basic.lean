import LinearProgram.Solution

/-! # Tableaus

A linear system in solved form: every constraint row names the column that is basic in it, and the
objective row `Z - c · x = 0` ends in the current objective value.
-/

namespace LinearProgram

inductive ColumnKind where
  | decision
  | slack
  | surplus
  | artificial
  deriving DecidableEq, Repr

structure Column where
  name : String
  kind : ColumnKind
  deriving DecidableEq, Repr

/-- One entry per column and the entry of the solution column. -/
structure Row (α : Type) where
  entries : List α
  solution : α
  deriving DecidableEq, Repr

structure BasicRow (α : Type) extends Row α where
  /-- The position of the basic column. -/
  basic : Nat
  deriving DecidableEq, Repr

structure Tableau (α : Type) where
  columns : List Column
  rows : List (BasicRow α)
  objective : Row α
  deriving DecidableEq, Repr

variable {α : Type} [Scalar α]

namespace Row

def entry (r : Row α) (col : Nat) : α := r.entries.getD col 0

def map (f : α → α) (r : Row α) : Row α := ⟨r.entries.map f, f r.solution⟩

def zipWith (f : α → α → α) (r s : Row α) : Row α :=
  ⟨List.zipWith f r.entries s.entries, f r.solution s.solution⟩

def set (r : Row α) (col : Nat) (x : α) : Row α := { r with entries := r.entries.set col x }

/-- The entries with the solution entry at the end. -/
def values (r : Row α) : List α := r.entries ++ [r.solution]

end Row

namespace Tableau

def columnCount (t : Tableau α) : Nat := t.columns.length

def columnNames (t : Tableau α) : List String := t.columns.map (·.name)

def columnName (t : Tableau α) (col : Nat) : String := (t.columnNames[col]?).getD ""

def count (t : Tableau α) (kind : ColumnKind) : Nat := t.columns.countP (·.kind == kind)

def isArtificial (t : Tableau α) (col : Nat) : Bool :=
  (t.columns[col]?).any (·.kind == .artificial)

def basicName (t : Tableau α) (r : BasicRow α) : String := t.columnName r.basic

def basicVariables (t : Tableau α) : List String := t.rows.map t.basicName

def objectiveValue (t : Tableau α) : α := t.objective.solution

def reducedCost (t : Tableau α) (col : Nat) : α := t.objective.entry col

/-- Values of the decision variables: basic ones are read from the solution column, the last row
counts, all others are zero. -/
def assignment (t : Tableau α) : List α :=
  (List.range (t.count .decision)).map fun col =>
    match t.rows.reverse.find? (·.basic == col) with
    | some r => Scalar.unsignedZero r.solution
    | none => 0

/-- The first row in which an artificial variable is basic at a positive value. -/
def positiveArtificial? (tolerance : α) (t : Tableau α) : Option (BasicRow α) :=
  t.rows.find? fun r => t.isArtificial r.basic && decide (tolerance < r.solution)

/-- Whether a column that is neither basic nor artificial could enter without changing the
objective. -/
def hasTie (tolerance : α) (t : Tableau α) : Bool :=
  (List.range t.columnCount).any fun col =>
    !t.isArtificial col && !(t.rows.any (·.basic == col)) &&
      decide (Scalar.abs (t.reducedCost col) ≤ tolerance)

/-- Whether a basic variable that is not artificial sits at zero. -/
def isDegenerate (tolerance : α) (t : Tableau α) : Bool :=
  t.rows.any fun r => !t.isArtificial r.basic && decide (Scalar.abs r.solution ≤ tolerance)

/-- All rows of numbers, the objective row last. -/
def grid (t : Tableau α) : List (List α) :=
  t.rows.map (·.values) ++ [t.objective.values]

def snapshot (t : Tableau α) (phase : Option Nat) (iteration : Nat) (description : String) :
    Snapshot α where
  phase := phase
  iteration := iteration
  columns := t.columnNames
  grid := t.grid.map (·.map Scalar.unsignedZero)
  basicVariables := t.basicVariables
  enteringColumn := none
  leavingRow := none
  pivotElement := none
  ratios := []
  description := description

/-- A label and right-aligned cells, ended by a line feed. -/
def lineText (label : String) (cells : List String) : String :=
  Text.padLeft 6 label ++ String.join (cells.map fun cell => " " ++ Text.padLeft 10 cell) ++ "\n"

/-- The tableau as a table with four decimals. -/
def text (t : Tableau α) : String :=
  let row (label : String) (values : List α) : String :=
    lineText label (values.map (Scalar.fixed 4))
  lineText "basis" (t.columnNames ++ ["sol"]) ++
    String.join (t.rows.map fun r => row (t.basicName r) r.values) ++
    row "Z" t.objective.values

end Tableau

end LinearProgram
