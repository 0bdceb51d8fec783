import LinearProgram.Solution

/-! # Trace events

The steps of a solve in order, as data. Every event holds what its line of text shows and what a
viewer needs to replay the step.
-/

namespace LinearProgram

inductive Event (α : Type) where
  | objective (sense : Sense) (coefficients : List α) (names : List String)
  | constraintList (constraints : List (Constraint α)) (names : List String)
  /-- A row without coefficients: it has no line, and is checked all the same. -/
  | degenerateConstraint (label : String) (relation : Relation) (bound : α) (alwaysSatisfied : Bool)
  | parallelLines (first second : String)
  | intersection (first second : String) (point : Point α)
  | feasibilityCheck (point : Point α) (checks : List (Check α)) (feasible : Bool)
  | duplicateVertex (point existing : Point α)
  | vertexEvaluation (point : Point α) (value : α)
  | optimumSelected (sense : Sense) (value : α) (points : List (Point α))
      (solutionType : Multiplicity)
  | infeasible (reason : String)
  | standardForm (discipline : Discipline) (columns : List String)
      (slack surplus artificial : Nat)
  /-- A row multiplied by `-1`, so that its bound is not negative. -/
  | rowNormalized (label : String) (relation : Relation)
  | phaseStarted (phase : Nat)
  | phaseCompleted (phase : Nat) (objectiveValue : α)
  | initialTableau (tableau : Nat)
  | optimalityReached (iteration : Nat)
  | enteringVariable (iteration column : Nat) (variableName : String) (reducedCost : α)
  | ratioTest (iteration : Nat) (ratios : List (Option α)) (leavingRow : Option Nat)
      (leavingVariable : Option String)
  | pivot (iteration row column : Nat) (pivotElement : α) (entering leaving : String)
      (objectiveBefore objectiveAfter : α) (tableau : Nat)
  | artificialDrivenOut (row : Nat) (artificial : String) (replacement : Option String)
  /-- The penalty left this artificial positive; feasibility is settled by a first phase. -/
  | penaltyRecheck (artificial : String) (value : α)
  | unbounded (variableName : String)
  | iterationLimit (limit : Nat)
  | solution (value : α) (assignment : List α) (names : List String)
  deriving DecidableEq, Repr

abbrev Trace (α : Type) := List (Event α)

end LinearProgram
