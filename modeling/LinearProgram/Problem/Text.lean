import LinearProgram.Problem.Basic

/-! # Writing linear forms

Senses, relations and expressions such as `3x - 2.5y` as reports and traces show them.
-/

namespace LinearProgram

def Sense.text : Sense → String
  | .maximize => "MAX"
  | .minimize => "MIN"

def Relation.symbol : Relation → String
  | .le => "<="
  | .ge => ">="
  | .eq => "="

variable {α : Type} [Scalar α]

/-- The sign before a term: between terms it stands for the operator, before the first one only a
minus is written. -/
def termSign (first : Bool) (coefficient : α) : String :=
  match first, decide (coefficient < 0) with
  | true, true => "-"
  | true, false => ""
  | false, true => " - "
  | false, false => " + "

/-- The terms after the first, or all of them. -/
def termsText (first : Bool) : List (α × String) → String
  | [] => ""
  | (coefficient, name) :: rest =>
    termSign first coefficient ++ (Scalar.compact (Scalar.abs coefficient) ++ name) ++
      termsText false rest

/-- The form `3x - 2.5y`, every coefficient written, also one and zero. -/
def expressionText (coefficients : List α) (names : List String) : String :=
  termsText true (coefficients.zip names)

/-- A constraint as `3x - 2.5y <= 4`. -/
def Constraint.text (names : List String) (c : Constraint α) : String :=
  expressionText c.coefficients names ++ " " ++ c.relation.symbol ++ " " ++ Scalar.compact c.bound

end LinearProgram
