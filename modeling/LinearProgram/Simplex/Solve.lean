import LinearProgram.Simplex.DriveOut
import LinearProgram.Tableau.StandardForm
import LinearProgram.Problem.Validation

/-! # The simplex method

Solves a problem in any number of variables and records every tableau. Artificial variables are kept
out of the final basis by a penalty or by a first phase. When the penalty leaves one of them
positive, a first phase decides whether the problem is feasible.
-/

namespace LinearProgram

structure SimplexSettings (α : Type) where
  /-- The most pivots, or a bound from the size of the problem. -/
  maxIterations : Option Nat
  tolerance : α
  discipline : Discipline
  /-- The penalty of an artificial variable for an objective with coefficients up to one. -/
  bigM : α
  deriving DecidableEq, Repr

structure SimplexSolution (α : Type) where
  status : Status
  /-- The value of each decision variable, empty unless optimal. -/
  assignment : List α
  optimalValue : Option α
  solutionType : Option Multiplicity
  /-- Whether a basic variable sits at zero in the final tableau. -/
  degenerate : Bool
  /-- The number of pivots. -/
  iterations : Nat
  tableaus : List (Snapshot α)
  trace : Trace α
  deriving DecidableEq, Repr

variable {α : Type} [Scalar α]

def defaultBigM : α := 1e6

def SimplexSettings.standard : SimplexSettings α :=
  ⟨none, Scalar.defaultTolerance, .bigM, defaultBigM⟩

/-- A finished solve and its log. -/
structure SimplexRun (α : Type) where
  solution : SimplexSolution α
  log : List (Log.Entry α)
  deriving DecidableEq, Repr

/-- How the first phase ends. -/
inductive PhaseOne (α : Type) where
  | stopped (status : Status) (record : Record α)
  /-- The problem is feasible, and this tableau holds a feasible basis. -/
  | feasible (tableau : Tableau α) (record : Record α)
  deriving DecidableEq, Repr

namespace Record

/-- Ends a solve without an optimum. -/
def stop (r : Record α) (status : Status) : SimplexRun α :=
  ⟨⟨status, [], none, none, false, r.iterations, r.tableaus, r.trace⟩, r.log⟩

/-- Ends a solve at an optimal tableau. -/
def finish (tolerance : α) (p : Problem α) (t : Tableau α) (r : Record α) : SimplexRun α :=
  let value := p.objective.evaluate t.assignment
  let solutionType := if t.hasTie tolerance then Multiplicity.multiple else .unique
  let degenerate := t.isDegenerate tolerance
  let entry := Log.debug "optimal"
    [("value", .number value), ("solution_type", .text solutionType.text),
      ("degenerate", .flag degenerate), ("iterations", .count r.iterations)]
  let names := t.columnNames.take (t.count .decision)
  ⟨⟨.optimal, t.assignment, some value, some solutionType, degenerate, r.iterations, r.tableaus,
    r.trace ++ [.solution value t.assignment names]⟩, r.log ++ [entry]⟩

end Record

/-- One cost per column; slack and surplus columns are free. -/
def Tableau.costs (t : Tableau α) (coefficients : List α) (artificial : α) : List α :=
  t.columns.zipIdx.map fun (column, j) =>
    match column.kind with
    | .decision => coefficients.getD j 0
    | .artificial => artificial
    | .slack | .surplus => 0

/-- Whether a tableau that minimizes the sum of the artificials still has some of it. -/
def Tableau.hasArtificialPart (tolerance : α) (t : Tableau α) : Bool :=
  decide (tolerance * Scalar.larger 1 (Scalar.abs t.objectiveValue) < t.objectiveValue) ||
    (t.positiveArtificial? tolerance).isSome

namespace SimplexSettings

/-- Ten pivots for every row and column of the tableau, the objective row and the solution column
among them, unless a number is set. -/
def limit (s : SimplexSettings α) (p : Problem α) : Nat :=
  s.maxIterations.getD
    (10 * (p.standardForm.rows.length + 1 + (p.standardForm.columnCount + 1)))

/-- The first phase after some pivots: it minimizes the sum of the artificial variables. -/
def phaseOneLeg (s : SimplexSettings α) (p : Problem α) (used : Nat) : Leg α :=
  ⟨⟨.minimize, fun _ => true, s.tolerance⟩, p.standardForm,
    p.standardForm.costs (List.replicate p.variableCount 0) 1, s.limit p - used⟩

/-- The second phase from a feasible basis: artificial columns may not enter. -/
def phaseTwoLeg (s : SimplexSettings α) (p : Problem α) (t : Tableau α) (used : Nat) : Leg α :=
  ⟨⟨p.objective.sense, fun col => !t.isArtificial col, s.tolerance⟩, t,
    t.costs p.objective.coefficients 0, s.limit p - used⟩

def phaseOne (s : SimplexSettings α) (p : Problem α) (r : Record α) : PhaseOne α :=
  let leg := s.phaseOneLeg p r.iterations
  let opened := (r.note (.phaseStarted 1)).openStage (some 1)
    "Initial tableau, phase 1 (minimize W)" leg.start
  let stage := leg.stage
  let closed := opened.addStage (some 1) (s.limit p) stage
  match stage.ending with
  | .unbounded .. => .stopped .infeasible closed
  | .outOfPivots => .stopped .iterationLimit closed
  | .optimal =>
    let w := stage.final.objectiveValue
    let completed := closed.note (.phaseCompleted 1 w)
    if stage.final.hasArtificialPart s.tolerance then
      .stopped .infeasible
        ((completed.write (Log.debug "phase 1 ended with positive artificial sum"
          [("w", .number w)])).note
          (.infeasible ("phase 1 ended with W = " ++ Scalar.fixed 6 w ++ " > 0")))
    else
      let pass := stage.final.driveOut s.tolerance (List.range stage.final.rows.length)
      .feasible (DriveOut.final stage.final pass) (pass.foldl Record.addDriveOut completed)

/-- Optimizes the objective from a feasible basis. -/
def phaseTwo (s : SimplexSettings α) (p : Problem α) (t : Tableau α) (r : Record α) :
    SimplexRun α :=
  let leg := s.phaseTwoLeg p t r.iterations
  let opened := r.openStage (some 2) "Initial tableau, phase 2" leg.start
  let stage := leg.stage
  let closed := opened.addStage (some 2) (s.limit p) stage
  match stage.ending with
  | .optimal => closed.finish s.tolerance p stage.final
  | .unbounded .. => closed.stop .unbounded
  | .outOfPivots => closed.stop .iterationLimit

/-- Both phases from the standard form. -/
def bothPhases (s : SimplexSettings α) (p : Problem α) (r : Record α) : SimplexRun α :=
  match s.phaseOne p r with
  | .stopped status record => record.stop status
  | .feasible t record => s.phaseTwo p t (record.note (.phaseStarted 2))

/-- The penalty, larger than any objective coefficient by the factor `bigM`. -/
def penalty (s : SimplexSettings α) (p : Problem α) : α :=
  s.bigM * p.objective.coefficients.foldl (fun most c => Scalar.larger most (Scalar.abs c)) 1

/-- One stage from the standard form in which artificial variables cost the penalty. -/
def penaltyLeg (s : SimplexSettings α) (p : Problem α) : Leg α :=
  let cost := match p.objective.sense with
    | .maximize => -s.penalty p
    | .minimize => s.penalty p
  ⟨⟨p.objective.sense, fun _ => true, s.tolerance⟩, p.standardForm,
    p.standardForm.costs p.objective.coefficients cost, s.limit p⟩

def penalized (s : SimplexSettings α) (p : Problem α) (r : Record α) : SimplexRun α :=
  let leg := s.penaltyLeg p
  let entry := Log.debug "artificial penalty" [("big_m", .number (s.penalty p))]
  let opened := (r.write entry).openStage none "Initial tableau" leg.start
  let stage := leg.stage
  let closed := opened.addStage none (s.limit p) stage
  match stage.ending, stage.final.positiveArtificial? s.tolerance with
  | .outOfPivots, _ => closed.stop .iterationLimit
  | _, some row =>
    s.bothPhases p ((closed.note (.penaltyRecheck (stage.final.basicName row) row.solution)).write
      (Log.debug "artificial still positive under Big M, checking feasibility" []))
  | .unbounded .., none => closed.stop .unbounded
  | .optimal, none => closed.finish s.tolerance p stage.final

/-- The record before the first stage: the problem and its standard form. -/
def opening (s : SimplexSettings α) (p : Problem α) : Record α :=
  let form := p.standardForm
  let names := numberedNames "x" p.variableCount
  { trace := [.objective p.objective.sense p.objective.coefficients names,
      .constraintList p.constraints names] ++ p.normalizations ++
      [.standardForm s.discipline form.columnNames (form.count .slack) (form.count .surplus)
        (form.count .artificial)]
    tableaus := []
    iterations := 0
    log := [Log.debug "starting simplex"
      [("rows", .count form.rows.length), ("columns", .count form.columnCount),
        ("limit", .count (s.limit p)), ("discipline", .text s.discipline.text)]] }

/-- The solve of a problem that has been validated. -/
def run (s : SimplexSettings α) (p : Problem α) : SimplexRun α :=
  match s.discipline with
  | .bigM => s.penalized p (s.opening p)
  | .twoPhase =>
    if 0 < p.standardForm.count .artificial then s.bothPhases p (s.opening p)
    else s.phaseTwo p p.standardForm (s.opening p)

def solve (s : SimplexSettings α) (p : Problem α) : Except ValidationError (SimplexSolution α) := do
  p.validate
  .ok (s.run p).solution

/-- What is logged while the problem is solved. -/
def log (s : SimplexSettings α) (p : Problem α) : List (Log.Entry α) := (s.run p).log

end SimplexSettings

end LinearProgram
