import LinearProgram.Plane.Corners
import LinearProgram.Simplex.Solve
import LinearProgram.Trace.Text

/-! # Reports

Solutions and problems as lines of text.
-/

namespace LinearProgram

namespace CommandLine

variable {α : Type} [Scalar α]

open Scalar (fixed)

/-- The steps of a solve, numbered. -/
def traceReport (trace : Trace α) : List String :=
  "Steps:" :: trace.render.zipIdx.map fun (line, i) =>
    "  " ++ Text.padLeft 3 (toString (i + 1)) ++ ". " ++ line

/-- The best value and how often it is attained. -/
def optimumLine (value : α) (solutionType : Multiplicity) : String :=
  "Optimal value: " ++ fixed 4 value ++ " (" ++ solutionType.text ++ " solution)"

def cornerOptimum (names : List String) (s : CornerSolution α) : List String :=
  match s.optimalValue, s.solutionType with
  | some value, some solutionType =>
    optimumLine value solutionType :: s.optimalPoints.map fun p =>
      "  " ++ names.getD 0 "" ++ " = " ++ fixed 4 p.x ++ ", " ++ names.getD 1 "" ++ " = " ++
        fixed 4 p.y
  | _, _ => []

def cornerReport (names : List String) (s : CornerSolution α) : List String :=
  ("Status: " ++ s.status.text) :: cornerOptimum names s ++
    (if s.vertices.isEmpty then []
     else "" :: "Vertices:" :: s.vertices.map fun v =>
      "  " ++ Text.padRight 24 v.point.text ++ " Z = " ++ fixed 4 v.value) ++
    "" :: traceReport s.trace

def simplexOptimum (names : List String) (s : SimplexSolution α) : List String :=
  match s.optimalValue, s.solutionType with
  | some value, some solutionType =>
    optimumLine value solutionType ::
      ((names.zip s.assignment).map fun (name, v) =>
        "  " ++ Text.padRight 10 name ++ " " ++ Text.padLeft 12 (fixed 4 v)) ++
      (if s.degenerate then ["The final basis is degenerate."] else [])
  | _, _ => []

/-- A cell ten characters wide behind a space. -/
def cell (text : String) : String := " " ++ Text.padLeft 10 text

/-- A row of a snapshot: the leaving row is marked, and the row's ratio stands at its end. -/
def snapshotRow (s : Snapshot α) (i : Nat) (values : List α) : String :=
  (if s.leavingRow = some i then ">" else " ") ++ Text.padLeft 5 (s.basicVariables.getD i "Z") ++
    String.join (values.map fun v => cell (fixed 4 v)) ++
    (match s.ratios[i]? with
     | some ratio => cell (ratioText ratio)
     | none => "")

/-- A tableau as a table under its description. -/
def snapshotReport (s : Snapshot α) : List String :=
  ((match s.phase with
    | some phase => "[phase " ++ toString phase ++ "] "
    | none => "") ++ s.description) ::
    (Text.padLeft 6 "basis" ++ String.join ((s.columns ++ ["sol", "ratio"]).map cell)) ::
    (s.grid.zipIdx.map fun (values, i) => snapshotRow s i values) ++
    (match s.enteringColumn, s.pivotElement with
     | some col, some element =>
      ["entering " ++ s.columns.getD col "" ++ ", pivot element " ++ fixed 4 element]
     | _, _ => []) ++
    [""]

def simplexReport (names : List String) (showTableaus : Bool) (s : SimplexSolution α) :
    List String :=
  ("Status: " ++ s.status.text) :: ("Iterations: " ++ toString s.iterations) ::
    simplexOptimum names s ++
    "" :: (if showTableaus then s.tableaus.flatMap snapshotReport else []) ++
    traceReport s.trace

/-- The problem as it was understood. -/
def problemReport (names : List String) (p : Problem α) : List String :=
  ("OK: " ++ toString p.variableCount ++ " variables, " ++ toString p.constraintCount ++
      " constraints") ::
    ("  " ++ p.objective.sense.text ++ " Z = " ++
      expressionText p.objective.coefficients names) ::
    p.constraints.zipIdx.map fun (c, i) => "  " ++ rowLabel i ++ ": " ++ c.text names

/-- Whether a constraint holds at a point, as the report judges it. -/
def passes (c : Constraint α) (point : List α) : Bool :=
  !(decide (0 < c.violation point) && !c.isSatisfied Scalar.defaultTolerance point)

/-- Whether no coordinate is negative and every constraint passes. -/
def isFeasible (p : Problem α) (point : List α) : Bool :=
  point.all (fun v => !decide (v < 0)) && p.constraints.all (passes · point)

/-- The negative coordinates, each with the condition that it violates. -/
def signReport (names : List String) (point : List α) : List String :=
  point.zipIdx.filterMap fun (v, i) =>
    if v < 0 then
      let name := names.getD i ""
      some ("  " ++ name ++ " = " ++ fixed 4 v ++ " violates " ++ name ++ " >= 0")
    else none

def constraintReport (point : List α) (c : Constraint α) (i : Nat) : String :=
  "  " ++ rowLabel i ++ ": lhs " ++ fixed 4 (c.lhs point) ++
    (if passes c point then ", satisfied" else ", violated by " ++ fixed 4 (c.violation point))

/-- The objective at a point, and whether the point is feasible. -/
def pointReport (names : List String) (p : Problem α) (point : List α) : List String :=
  "" :: ("Z = " ++ fixed 4 (p.objective.evaluate point)) :: signReport names point ++
    (p.constraints.zipIdx.map fun (c, i) => constraintReport point c i) ++
    [if isFeasible p point then "Point is feasible" else "Point is not feasible"]

end CommandLine

end LinearProgram
