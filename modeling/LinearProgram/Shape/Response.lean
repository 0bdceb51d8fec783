import LinearProgram.Shape.Trace
import LinearProgram.Json.Reader
import LinearProgram.Json.Writer
import LinearProgram.Plane.Corners
import LinearProgram.Simplex.Solve

/-! # Responses

The answers of both solvers as they are exchanged in JSON.
-/

namespace LinearProgram

open Json (Decoder)

/-- A solution by corners, with the corners and their values apart. -/
structure CornerResponse where
  status : Status
  vertices : List (Point Float)
  objectiveValues : List Float
  optimalValue : Option Float
  optimalPoints : List (Point Float)
  solutionType : Option Multiplicity
  trace : Trace Float
  deriving DecidableEq, Repr

namespace CornerResponse

def ofSolution (s : CornerSolution Float) : CornerResponse :=
  ⟨s.status, s.vertices.map (·.point), s.vertices.map (·.value), s.optimalValue, s.optimalPoints,
    s.solutionType, s.trace⟩

def toJson (r : CornerResponse) : Json :=
  .record [("status", r.status.toJson), ("vertices", .list Point.toJson r.vertices),
    ("objectiveValues", .list .float r.objectiveValues),
    ("optimalValue", .option .float r.optimalValue),
    ("optimalPoints", .list Point.toJson r.optimalPoints),
    ("solutionType", .option Multiplicity.toJson r.solutionType), ("trace", r.trace.toJson)]

def ofJson : Decoder CornerResponse := fun place j => do
  let f ← Json.fields? [["status"], ["vertices"], ["objectiveValues"], ["optimalValue"],
    ["optimalPoints"], ["solutionType"], ["trace"]] place j
  let status ← f.required "status" Status.ofJson
  let vertices ← f.required "vertices" (.list Point.ofJson)
  let objectiveValues ← f.required "objectiveValues" (.list .float)
  let optimalValue ← f.optional "optimalValue" .float
  let optimalPoints ← f.required "optimalPoints" (.list Point.ofJson)
  let solutionType ← f.optional "solutionType" Multiplicity.ofJson
  let trace ← f.required "trace" Trace.ofJson
  some ⟨status, vertices, objectiveValues, optimalValue, optimalPoints, solutionType, trace⟩

end CornerResponse

namespace SimplexSolution

def toJson (s : SimplexSolution Float) : Json :=
  .record [("status", s.status.toJson), ("assignment", .list .float s.assignment),
    ("optimalValue", .option .float s.optimalValue),
    ("solutionType", .option Multiplicity.toJson s.solutionType),
    ("degenerate", .bool s.degenerate), ("iterations", .natural s.iterations),
    ("tableaus", .list Snapshot.toJson s.tableaus), ("trace", s.trace.toJson)]

def ofJson : Decoder (SimplexSolution Float) := fun place j => do
  let f ← Json.fields? [["status"], ["assignment"], ["optimalValue"], ["solutionType"],
    ["degenerate"], ["iterations"], ["tableaus"], ["trace"]] place j
  let status ← f.required "status" Status.ofJson
  let assignment ← f.required "assignment" (.list .float)
  let optimalValue ← f.optional "optimalValue" .float
  let solutionType ← f.optional "solutionType" Multiplicity.ofJson
  let degenerate ← f.required "degenerate" .bool
  let iterations ← f.required "iterations" .count
  let tableaus ← f.required "tableaus" (.list Snapshot.ofJson)
  let trace ← f.required "trace" Trace.ofJson
  some ⟨status, assignment, optimalValue, solutionType, degenerate, iterations, tableaus, trace⟩

end SimplexSolution

/-- Why a request has no response. -/
inductive RequestError where
  /-- The request is no problem in JSON. -/
  | malformed
  | invalid (reason : ValidationError)
  deriving DecidableEq, Repr

/-- Reads a problem from a JSON text. -/
def Problem.ofRequest (request : String) : Except RequestError (Problem Float) :=
  match (Json.ofString? request).bind (Json.decode? Problem.ofJson) with
  | some p => .ok p
  | none => .error .malformed

/-- Answers a request by comparing corners. -/
def answerByCorners (tolerance : Float) (request : String) : Except RequestError String := do
  let p ← Problem.ofRequest request
  match p.solveByCorners tolerance with
  | .ok solution => .ok (CornerResponse.ofSolution solution).toJson.compact
  | .error reason => .error (.invalid reason)

/-- Answers a request by the simplex method. -/
def SimplexSettings.answer (s : SimplexSettings Float) (request : String) :
    Except RequestError String := do
  let p ← Problem.ofRequest request
  match s.solve p with
  | .ok solution => .ok solution.toJson.compact
  | .error reason => .error (.invalid reason)

end LinearProgram
