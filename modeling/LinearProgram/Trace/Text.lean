import LinearProgram.Number.Digits
import LinearProgram.Trace.Event
import LinearProgram.Problem.Text

/-! # Trace lines

One line of text for every event of a trace.
-/

namespace LinearProgram

variable {α : Type} [Scalar α]

def Check.text (c : Check α) : String :=
  (if c.satisfied then "✓ " else "✗ ") ++ c.label ++ " = " ++ Scalar.fixed 2 c.lhs ++ " " ++
    c.relation.symbol ++ " " ++ Scalar.compact c.bound

/-- A missing ratio is a dash. -/
def ratioText : Option α → String
  | some r => Scalar.fixed 4 r
  | none => "-"

def commaSeparated (parts : List String) : String := ", ".intercalate parts

namespace Event

/-- ` R1: 3x + 2y <= 4;` for every constraint, numbered from `i`. -/
def constraintListText (names : List String) (i : Nat) : List (Constraint α) → String
  | [] => ""
  | c :: rest =>
    " " ++ rowLabel i ++ ": " ++ c.text names ++ ";" ++ constraintListText names (i + 1) rest

/-- Rows are shown from one on, as 64-bit numbers: the number after the last is zero. -/
def rowNumber (row : Nat) : Nat := (row + 1) % wordBound

def iterationText (iteration : Nat) : String := "Iteration " ++ toString iteration ++ ": "

def text : Event α → String
  | objective sense coefficients names =>
    "Objective: " ++ sense.text ++ " Z = " ++ expressionText coefficients names
  | constraintList constraints names =>
    "Constraints:" ++ constraintListText names 0 constraints
  | degenerateConstraint label relation bound alwaysSatisfied =>
    label ++ ": all coefficients are zero (0 " ++ relation.symbol ++ " " ++ Scalar.compact bound ++
      "), not a line; " ++ (if alwaysSatisfied then "always satisfied" else "never satisfied")
  | parallelLines first second => first ++ " ∩ " ++ second ++ ": parallel, no unique intersection"
  | intersection first second point => first ++ " ∩ " ++ second ++ ": " ++ point.text
  | feasibilityCheck point checks feasible =>
    "Check " ++ point.text ++ ":" ++ String.join (checks.map fun c => " " ++ c.text ++ ";") ++
      (if feasible then " feasible" else " not feasible")
  | duplicateVertex point existing => point.text ++ " duplicates vertex " ++ existing.text
  | vertexEvaluation point value => "Vertex " ++ point.text ++ ": Z = " ++ Scalar.fixed 2 value
  | optimumSelected sense value points solutionType =>
    sense.text ++ " Z = " ++ Scalar.fixed 2 value ++ " at " ++
      commaSeparated (points.map Point.text) ++ " (" ++ solutionType.text ++ " solution)"
  | infeasible reason => "Infeasible: " ++ reason
  | standardForm discipline columns slack surplus artificial =>
    "Standard form (" ++ discipline.text ++ "): " ++ toString slack ++ " slack, " ++
      toString surplus ++ " surplus, " ++ toString artificial ++ " artificial; columns " ++
      commaSeparated columns
  | rowNormalized label relation =>
    label ++ ": negative bound, row multiplied by -1 (now " ++ relation.symbol ++ ")"
  | phaseStarted phase =>
    if phase = 1 then "Phase 1: minimize W = sum of artificial variables"
    else "Phase " ++ toString phase ++ ": optimize the original objective"
  | phaseCompleted phase objectiveValue =>
    "Phase " ++ toString phase ++ " finished with objective " ++ Scalar.fixed 6 objectiveValue
  | initialTableau tableau => "Initial tableau (#" ++ toString tableau ++ ")"
  | optimalityReached iteration =>
    iterationText iteration ++ "no improving column, optimality reached"
  | enteringVariable iteration _ variableName reducedCost =>
    iterationText iteration ++ variableName ++ " enters (objective row coefficient " ++
      Scalar.fixed 4 reducedCost ++ ")"
  | ratioTest iteration ratios _ leavingVariable =>
    iterationText iteration ++ "ratios [" ++ commaSeparated (ratios.map ratioText) ++ "], " ++
      (match leavingVariable with
       | some name => name ++ " leaves"
       | none => "no row bounds the entering variable")
  | pivot iteration _ _ pivotElement entering leaving objectiveBefore objectiveAfter _ =>
    iterationText iteration ++ "pivot " ++ Scalar.fixed 4 pivotElement ++ " (" ++ entering ++
      " in, " ++ leaving ++ " out), Z " ++ Scalar.fixed 4 objectiveBefore ++ " -> " ++
      Scalar.fixed 4 objectiveAfter
  | artificialDrivenOut row artificial replacement =>
    "Row " ++ toString (rowNumber row) ++ ": artificial " ++ artificial ++
      (match replacement with
       | some name => " replaced by " ++ name
       | none => " kept at zero (redundant row)")
  | penaltyRecheck artificial value =>
    "Big M stopped with artificial " ++ artificial ++ " = " ++ Scalar.fixed 4 value ++
      "; checking feasibility with phase 1"
  | unbounded variableName => "Unbounded: " ++ variableName ++ " can grow without limit"
  | iterationLimit limit => "Stopped after " ++ toString limit ++ " iterations without concluding"
  | solution value assignment names =>
    "Optimal Z = " ++ Scalar.fixed 4 value ++
      String.join ((names.zip assignment).map fun (name, v) =>
        ", " ++ name ++ " = " ++ Scalar.fixed 4 v)

end Event

def Trace.render (trace : Trace α) : List String := trace.map Event.text

end LinearProgram
