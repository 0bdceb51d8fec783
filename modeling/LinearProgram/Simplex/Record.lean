import LinearProgram.Simplex.Stage
import LinearProgram.Trace.Event
import LinearProgram.Log

/-! # Records

What is kept of a simplex solve while it runs: the trace, a snapshot after every step, the number of
pivots and the log. Entries are only ever added at the end.
-/

namespace LinearProgram

structure Record (α : Type) where
  trace : Trace α
  tableaus : List (Snapshot α)
  iterations : Nat
  log : List (Log.Entry α)
  deriving DecidableEq, Repr

variable {α : Type} [Scalar α]

namespace Record

def note (r : Record α) (event : Event α) : Record α := { r with trace := r.trace ++ [event] }

def keep (r : Record α) (snapshot : Snapshot α) : Record α :=
  { r with tableaus := r.tableaus ++ [snapshot] }

def write (r : Record α) (entry : Log.Entry α) : Record α := { r with log := r.log ++ [entry] }

/-- Keeps the tableau that a stage starts from. -/
def openStage (phase : Option Nat) (description : String) (t : Tableau α) (r : Record α) :
    Record α :=
  (r.keep (t.snapshot phase r.iterations description)).note (.initialTableau r.tableaus.length)

/-- Notes the choice of an entering column and the ratios of its rows. -/
def choose (before : Tableau α) (column : Nat) (ratios : List (Option α)) (row : Option Nat)
    (leaving : Option String) (r : Record α) : Record α :=
  (r.note (.enteringVariable (r.iterations + 1) column (before.columnName column)
    (before.reducedCost column))).note (.ratioTest (r.iterations + 1) ratios row leaving)

def pivotSnapshot (phase : Option Nat) (iteration : Nat) (p : Pivot α) : Snapshot α :=
  { p.after.snapshot phase iteration
      ("Iteration " ++ toString iteration ++ ": " ++ p.entering ++ " enters, " ++ p.leaving ++
        " leaves") with
    enteringColumn := some p.column
    leavingRow := some p.row
    pivotElement := some p.element
    ratios := p.ratios }

def pivotLog (iteration : Nat) (p : Pivot α) : List (Log.Entry α) :=
  [Log.debug "pivot"
      [("iteration", .count iteration), ("entering", .text p.entering),
        ("leaving", .text p.leaving), ("pivot", .number p.element)],
    ⟨.trace, "tableau after pivot " ++ toString iteration ++ ":\n" ++ p.after.text, []⟩]

/-- Adds one pivot: its choice, the snapshot after it and the change of the objective. -/
def addPivot (phase : Option Nat) (r : Record α) (p : Pivot α) : Record α :=
  let chosen := r.choose p.before p.column p.ratios (some p.row) (some p.leaving)
  let iteration := r.iterations + 1
  { trace := chosen.trace ++ [.pivot iteration p.row p.column p.element p.entering p.leaving
      p.before.objectiveValue p.after.objectiveValue r.tableaus.length]
    tableaus := r.tableaus ++ [pivotSnapshot phase iteration p]
    iterations := iteration
    log := r.log ++ pivotLog iteration p }

/-- Notes why a stage stopped at its final tableau. -/
def close (limit : Nat) (stage : Stage α) (r : Record α) : Record α :=
  match stage.ending with
  | .optimal => r.note (.optimalityReached r.iterations)
  | .outOfPivots =>
    (r.write ⟨.warn, "simplex iteration limit reached", [("limit", .count limit)]⟩).note
      (.iterationLimit limit)
  | .unbounded column ratios =>
    let entering := stage.final.columnName column
    ((r.choose stage.final column ratios none none).write
      (Log.debug "no positive entry in entering column"
        [("iteration", .count (r.iterations + 1)), ("entering", .text entering)])).note
      (.unbounded entering)

/-- Adds a whole stage. -/
def addStage (phase : Option Nat) (limit : Nat) (stage : Stage α) (r : Record α) : Record α :=
  (stage.pivots.foldl (addPivot phase) r).close limit stage

end Record

end LinearProgram
