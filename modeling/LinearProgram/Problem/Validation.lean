import LinearProgram.Problem.Basic

/-! # Validation

What is refused before any solving begins: no objective, no constraints, rows of the wrong length
and numbers that are not finite.
-/

namespace LinearProgram

inductive ValidationError where
  | emptyObjective
  | noConstraints
  /-- The constraint's number counts from one. -/
  | coefficientCount (constraint expected found : Nat)
  | nonFiniteObjective
  | nonFiniteConstraint (constraint : Nat)
  | notTwoDimensional (found : Nat)
  deriving DecidableEq, Repr

namespace ValidationError

def message : ValidationError → String
  | emptyObjective => "Objective has no coefficients"
  | noConstraints => "Problem has no constraints"
  | coefficientCount constraint expected found =>
    "Constraint R" ++ toString constraint ++ " has " ++ toString found ++
      " coefficients, expected " ++ toString expected
  | nonFiniteObjective => "Non-finite value in objective"
  | nonFiniteConstraint constraint => "Non-finite value in constraint R" ++ toString constraint
  | notTwoDimensional found => "Graphical method needs exactly 2 variables, got " ++ toString found

end ValidationError

variable {α : Type} [Scalar α]

/-- Checks one constraint of a problem in `n` variables; its number counts from one. -/
def Constraint.validate (n number : Nat) (c : Constraint α) : Except ValidationError Unit :=
  if c.coefficients.length ≠ n then
    .error (.coefficientCount number n c.coefficients.length)
  else if c.coefficients.all Scalar.isFinite && Scalar.isFinite c.bound then .ok ()
  else .error (.nonFiniteConstraint number)

/-- Constraints are checked in order, the first fault is reported. -/
def Constraint.validateFrom (n number : Nat) : List (Constraint α) → Except ValidationError Unit
  | [] => .ok ()
  | c :: rest => do
    c.validate n number
    validateFrom n (number + 1) rest

def Problem.validate (p : Problem α) : Except ValidationError Unit :=
  if p.variableCount = 0 then .error .emptyObjective
  else if !p.objective.coefficients.all Scalar.isFinite then .error .nonFiniteObjective
  else if p.constraints.isEmpty then .error .noConstraints
  else Constraint.validateFrom p.variableCount 1 p.constraints

end LinearProgram
