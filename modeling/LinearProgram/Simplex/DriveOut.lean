import LinearProgram.Simplex.Record

/-! # Driving out artificials

After the first phase an artificial variable may still be basic at zero. It is exchanged for any
other column that has an entry in its row; a row without one is redundant and stays.
-/

namespace LinearProgram

/-- What became of a row in which an artificial variable was basic. -/
structure DriveOut (α : Type) where
  row : Nat
  before : Tableau α
  /-- The column that replaces the artificial. -/
  column : Option Nat
  after : Tableau α
  deriving DecidableEq, Repr

variable {α : Type} [Scalar α]

namespace Tableau

/-- The first column that is not artificial and has an entry in the row. -/
def replacement? (tolerance : α) (t : Tableau α) (r : BasicRow α) : Option Nat :=
  (List.range t.columnCount).find? fun col =>
    !t.isArtificial col && decide (tolerance < Scalar.abs (r.entry col))

/-- Goes through the rows in order. -/
def driveOut (tolerance : α) (t : Tableau α) : List Nat → List (DriveOut α)
  | [] => []
  | row :: rest =>
    match (t.rows[row]?).filter fun r => t.isArtificial r.basic with
    | none => driveOut tolerance t rest
    | some r =>
      match t.replacement? tolerance r with
      | none => ⟨row, t, none, t⟩ :: driveOut tolerance t rest
      | some col =>
        let after := t.pivot tolerance row col
        ⟨row, t, some col, after⟩ :: driveOut tolerance after rest

end Tableau

namespace DriveOut

def artificial (d : DriveOut α) : String :=
  ((d.before.rows[d.row]?).map d.before.basicName).getD ""

def element (d : DriveOut α) (col : Nat) : α :=
  ((d.before.rows[d.row]?).map (·.entry col)).getD 0

/-- The tableau at the end of a pass that began at `t`. -/
def final (t : Tableau α) (pass : List (DriveOut α)) : Tableau α :=
  (pass.getLast?.map (·.after)).getD t

def snapshot (iteration : Nat) (d : DriveOut α) (col : Nat) : Snapshot α :=
  { d.after.snapshot (some 1) iteration
      (d.after.columnName col ++ " replaces " ++ d.artificial ++ " in the basis") with
    enteringColumn := some col
    leavingRow := some d.row
    pivotElement := some (d.element col) }

end DriveOut

def Record.addDriveOut (r : Record α) (d : DriveOut α) : Record α :=
  (match d.column with
   | some col => r.keep (d.snapshot r.iterations col)
   | none => r).note
    (.artificialDrivenOut d.row d.artificial (d.column.map d.after.columnName))

end LinearProgram
