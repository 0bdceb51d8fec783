import LinearProgram.Problem.Basic

/-! # Verdicts

How a solve ends and what it found.
-/

namespace LinearProgram

inductive Status where
  | optimal
  | infeasible
  | unbounded
  /-- The pivots ran out before a verdict. -/
  | iterationLimit
  deriving DecidableEq, Repr

/-- Whether the best value is attained once or more often. -/
inductive Multiplicity where
  | unique
  | multiple
  deriving DecidableEq, Repr

/-- How artificial variables are kept out of the final basis. -/
inductive Discipline where
  /-- They carry a large penalty in the objective. -/
  | bigM
  /-- A first phase drives them to zero, a second optimizes without them. -/
  | twoPhase
  deriving DecidableEq, Repr

def Status.text : Status → String
  | .optimal => "OPTIMAL"
  | .infeasible => "INFEASIBLE"
  | .unbounded => "UNBOUNDED"
  | .iterationLimit => "ITERATION LIMIT"

def Multiplicity.text : Multiplicity → String
  | .unique => "unique"
  | .multiple => "multiple"

def Discipline.text : Discipline → String
  | .bigM => "Big M"
  | .twoPhase => "two-phase"

/-- A point of the plane. -/
structure Point (α : Type) where
  x : α
  y : α
  deriving DecidableEq, Repr

namespace Point

variable {α : Type} [Scalar α]

def coords (p : Point α) : List α := [p.x, p.y]

def approxEq (tolerance : α) (p q : Point α) : Bool :=
  Scalar.approxEq tolerance p.x q.x && Scalar.approxEq tolerance p.y q.y

/-- Equality as the scalars compare: signs of zero do not matter. -/
def same (p q : Point α) : Bool := p.x == q.x && p.y == q.y

def text (p : Point α) : String :=
  "P(" ++ Scalar.fixed 2 p.x ++ ", " ++ Scalar.fixed 2 p.y ++ ")"

end Point

/-- A feasible corner of the region with its objective value. -/
structure Vertex (α : Type) where
  point : Point α
  value : α
  deriving DecidableEq, Repr

/-- The outcome of checking one condition at a point. The label is a row's, or the name of a
variable that must not be negative. -/
structure Check (α : Type) where
  label : String
  lhs : α
  relation : Relation
  bound : α
  satisfied : Bool
  deriving DecidableEq, Repr

/-- A copy of the tableau after one step, with the pivot that led to it. -/
structure Snapshot (α : Type) where
  /-- The phase, where there are two. -/
  phase : Option Nat
  /-- The number of pivots so far. -/
  iteration : Nat
  /-- Column names without the solution column. -/
  columns : List String
  /-- Constraint rows, then the objective row; each ends in its solution entry. -/
  grid : List (List α)
  basicVariables : List String
  enteringColumn : Option Nat
  leavingRow : Option Nat
  pivotElement : Option α
  /-- One per constraint row, none where the entering coefficient is not positive. -/
  ratios : List (Option α)
  description : String
  deriving DecidableEq, Repr

end LinearProgram
