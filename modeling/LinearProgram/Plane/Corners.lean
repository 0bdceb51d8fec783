import LinearProgram.Plane.Line
import LinearProgram.Problem.Validation
import LinearProgram.Trace.Event
import LinearProgram.Log

/-! # Corner enumeration

A problem in two variables is solved on paper: cross every pair of boundary lines, keep the points
that satisfy every condition, and compare the objective at what is left. Only corners are compared,
so a region without a bound is answered by its best corner.
-/

namespace LinearProgram

/-- What became of a candidate point. -/
inductive Verdict (α : Type) where
  | rejected
  | duplicate (existing : Point α)
  | corner
  deriving DecidableEq, Repr

structure Candidate (α : Type) where
  point : Point α
  checks : List (Check α)
  verdict : Verdict α
  deriving DecidableEq, Repr

structure CornerSolution (α : Type) where
  status : Status
  /-- The feasible corners in the order of their discovery. -/
  vertices : List (Vertex α)
  optimalValue : Option α
  /-- Every corner where the best value is attained. -/
  optimalPoints : List (Point α)
  solutionType : Option Multiplicity
  trace : Trace α
  deriving DecidableEq, Repr

variable {α : Type} [Scalar α]

namespace Problem

/-- Checks that neither coordinate is negative, then every constraint. -/
def checksAt (tolerance : α) (p : Problem α) (point : Point α) : List (Check α) :=
  let sign (name : String) (value : α) : Check α :=
    ⟨name, value, .ge, 0, Relation.holds tolerance .ge value 0⟩
  let row (c : Constraint α) (i : Nat) : Check α :=
    ⟨rowLabel i, c.lhs point.coords, c.relation, c.bound, c.isSatisfied tolerance point.coords⟩
  sign "x" point.x :: sign "y" point.y :: p.constraints.zipIdx.map fun (c, i) => row c i

/-- Sorts candidate points in order: a feasible one is a corner unless it is close to one already
seen. -/
def sift (tolerance : α) (p : Problem α) (seen : List (Point α)) :
    List (Point α) → List (Candidate α)
  | [] => []
  | point :: rest =>
    let checks := p.checksAt tolerance point
    if checks.all (·.satisfied) then
      match seen.find? fun corner => corner.approxEq tolerance point with
      | some corner => ⟨point, checks, .duplicate corner⟩ :: sift tolerance p seen rest
      | none => ⟨point, checks, .corner⟩ :: sift tolerance p (seen ++ [point]) rest
    else ⟨point, checks, .rejected⟩ :: sift tolerance p seen rest

end Problem

namespace Candidate

def corner? (c : Candidate α) : Option (Point α) :=
  match c.verdict with
  | .corner => some c.point
  | _ => none

def events (c : Candidate α) : Trace α :=
  match c.verdict with
  | .rejected => [.feasibilityCheck c.point c.checks false]
  | .duplicate existing =>
    [.feasibilityCheck c.point c.checks true, .duplicateVertex c.point existing]
  | .corner => [.feasibilityCheck c.point c.checks true]

end Candidate

def Crossing.event (c : Crossing α) : Event α :=
  match c.point with
  | some point => .intersection c.first c.second point
  | none => .parallelLines c.first c.second

/-- The best value among vertices, the earliest among equals. -/
def Objective.best (objective : Objective α) : List (Vertex α) → Option α
  | [] => none
  | v :: rest =>
    some (rest.foldl
      (fun best w => if objective.improves w.value best then w.value else best) v.value)

/-- Everything that is found before the objective is looked at. -/
structure Survey (α : Type) where
  crossings : List (Crossing α)
  candidates : List (Candidate α)
  deriving DecidableEq, Repr

namespace Survey

def corners (s : Survey α) : List (Point α) := s.candidates.filterMap Candidate.corner?

def vertices (objective : Objective α) (s : Survey α) : List (Vertex α) :=
  s.corners.map fun point => ⟨point, objective.evaluate point.coords⟩

def events (s : Survey α) : Trace α :=
  s.crossings.map Crossing.event ++ s.candidates.flatMap Candidate.events

end Survey

namespace Problem

def survey (tolerance : α) (p : Problem α) : Survey α :=
  let crossings := LinearProgram.crossings tolerance (p.boundaryLines tolerance)
  ⟨crossings, p.sift tolerance [] (crossings.filterMap (·.point))⟩

/-- States the problem, as every trace begins. -/
def statement (names : List String) (p : Problem α) : Trace α :=
  [.objective p.objective.sense p.objective.coefficients names,
    .constraintList p.constraints names]

/-- Rows that have no line, each with what it says of every point. -/
def degenerateRows (tolerance : α) (p : Problem α) : Trace α :=
  p.constraints.zipIdx.filterMap fun (c, i) =>
    if c.isDegenerate tolerance then
      some (.degenerateConstraint (rowLabel i) c.relation c.bound
        (c.relation.holds tolerance 0 c.bound))
    else none

/-- The best corners of a survey, and the trace of the whole solve. -/
def optimum (tolerance : α) (p : Problem α) (survey : Survey α) : CornerSolution α :=
  let begun := p.statement (variableNames 2) ++ p.degenerateRows tolerance ++ survey.events
  let vertices := survey.vertices p.objective
  match p.objective.best vertices with
  | none =>
    ⟨.infeasible, [], none, [], none,
      begun ++ [.infeasible "no intersection point satisfies every constraint"]⟩
  | some best =>
    let winners := (vertices.filter fun v => Scalar.approxEq tolerance v.value best).map (·.point)
    let solutionType := if winners.length = 1 then Multiplicity.unique else .multiple
    ⟨.optimal, vertices, some best, winners, some solutionType,
      begun ++ vertices.map (fun v => .vertexEvaluation v.point v.value) ++
        [.optimumSelected p.objective.sense best winners solutionType]⟩

/-- Refuses what is malformed or not in the plane. -/
def validatePlane (p : Problem α) : Except ValidationError Unit := do
  p.validate
  if p.variableCount ≠ 2 then .error (.notTwoDimensional p.variableCount)

/-- Solves a problem in two variables by comparing its corners. -/
def solveByCorners (tolerance : α) (p : Problem α) : Except ValidationError (CornerSolution α) := do
  p.validatePlane
  .ok (p.optimum tolerance (p.survey tolerance))

/-- What is logged while the problem is solved. -/
def cornerLog (tolerance : α) (p : Problem α) : List (Log.Entry α) :=
  let survey := p.survey tolerance
  let solution := p.optimum tolerance survey
  Log.debug "enumerated intersections"
      [("lines", .count (p.boundaryLines tolerance).length),
        ("candidates", .count survey.candidates.length)] ::
    match solution.optimalValue with
    | none => [Log.debug "no feasible vertex" []]
    | some value =>
      [Log.debug "optimum selected"
        [("value", .number value), ("winners", .count solution.optimalPoints.length)]]

end Problem

end LinearProgram
