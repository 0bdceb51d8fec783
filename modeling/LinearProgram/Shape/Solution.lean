import LinearProgram.Shape.Problem
import LinearProgram.Solution

/-! # Points, checks, verdicts and snapshots in JSON -/

namespace LinearProgram

open Json (Decoder)

namespace Status

def jsonNames : List (String × Status) :=
  [("optimal", optimal), ("infeasible", infeasible), ("unbounded", unbounded),
    ("iteration_limit", iterationLimit)]

def toJson : Status → Json
  | optimal => .text "optimal"
  | infeasible => .text "infeasible"
  | unbounded => .text "unbounded"
  | iterationLimit => .text "iteration_limit"

def ofJson : Decoder Status := .named jsonNames

end Status

namespace Multiplicity

def jsonNames : List (String × Multiplicity) := [("unique", unique), ("multiple", multiple)]

def toJson (m : Multiplicity) : Json := .text m.text

def ofJson : Decoder Multiplicity := .named jsonNames

end Multiplicity

namespace Discipline

def jsonNames : List (String × Discipline) := [("bigM", bigM), ("twoPhase", twoPhase)]

def toJson : Discipline → Json
  | bigM => .text "bigM"
  | twoPhase => .text "twoPhase"

def ofJson : Decoder Discipline := .named jsonNames

end Discipline

namespace Point

/-- A point is the list of its two coordinates. -/
def toJson (p : Point Float) : Json := .list .float [p.x, p.y]

def ofJson : Decoder (Point Float) := fun place j => do
  match ← Decoder.list .float place j with
  | [x, y] => some ⟨x, y⟩
  | _ => none

end Point

namespace Check

def toJson (c : Check Float) : Json :=
  .record [("label", .text c.label), ("lhs", .float c.lhs), ("relation", c.relation.toJson),
    ("bound", .float c.bound), ("satisfied", .bool c.satisfied)]

def ofJson : Decoder (Check Float) := fun place j => do
  let f ← Json.fields? [["label"], ["lhs"], ["relation"], ["bound"], ["satisfied"]] place j
  let label ← f.required "label" .text
  let lhs ← f.required "lhs" .float
  let relation ← f.required "relation" Relation.ofJson
  let bound ← f.required "bound" .float
  let satisfied ← f.required "satisfied" .bool
  some ⟨label, lhs, relation, bound, satisfied⟩

end Check

/-- Phases are small numbers. -/
def phaseOfJson : Decoder Nat := .natural 256

namespace Snapshot

/-- A phase that is absent is left out; other absent values are null. -/
def toJson (s : Snapshot Float) : Json :=
  .record ((s.phase.toList.map fun phase => ("phase", .natural phase)) ++
    [("iteration", .natural s.iteration), ("columns", .list .text s.columns),
      ("grid", .list (.list .float) s.grid), ("basicVariables", .list .text s.basicVariables),
      ("enteringColumn", .option .natural s.enteringColumn),
      ("leavingRow", .option .natural s.leavingRow),
      ("pivotElement", .option .float s.pivotElement),
      ("ratios", .list (.option .float) s.ratios), ("description", .text s.description)])

def ofJson : Decoder (Snapshot Float) := fun place j => do
  let f ← Json.fields? [["phase"], ["iteration"], ["columns"], ["grid"], ["basicVariables"],
    ["enteringColumn"], ["leavingRow"], ["pivotElement"], ["ratios"], ["description"]] place j
  let phase ← f.optional "phase" phaseOfJson
  let iteration ← f.required "iteration" .count
  let columns ← f.required "columns" (.list .text)
  let grid ← f.required "grid" (.list (.list .float))
  let basicVariables ← f.required "basicVariables" (.list .text)
  let enteringColumn ← f.optional "enteringColumn" .count
  let leavingRow ← f.optional "leavingRow" .count
  let pivotElement ← f.optional "pivotElement" .float
  let ratios ← f.required "ratios" (.list (.optional .float))
  let description ← f.required "description" .text
  some ⟨phase, iteration, columns, grid, basicVariables, enteringColumn, leavingRow, pivotElement,
    ratios, description⟩

end Snapshot

end LinearProgram
