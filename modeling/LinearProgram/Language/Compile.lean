import LinearProgram.Language.LinearForm
import LinearProgram.Language.VariableOrder
import LinearProgram.Language.Parser
import LinearProgram.Problem.Validation

/-! # Compiling programs

Expressions are reduced to linear forms, and statements to the coefficient lists of a problem. The
order of the variables is declared or found in the text.
-/

namespace LinearProgram

inductive CompileError (α : Type) where
  | parse (reason : ParseError)
  | missingObjective
  | multipleObjectives (found : Nat)
  | objectiveConstant (constant : α)
  | nonlinear (left right : LinearForm α)
  | nonConstantDivisor
  | divisionByZero
  | unknownVariable (name : String)
  | invalid (reason : ValidationError)

/-- A problem and the names of its variables in order. -/
structure CompiledProblem (α : Type) where
  names : List String
  objectiveName : Option String
  problem : Problem α
  deriving DecidableEq, Repr

variable {α : Type} [Scalar α]

namespace CompileError

def message : CompileError α → String
  | parse reason => "Parse error: " ++ reason.message
  | missingObjective => "Missing objective: add a line starting with max or min"
  | multipleObjectives found => "Only one objective is allowed, found " ++ toString found
  | objectiveConstant constant => "Objective has a constant term " ++ Scalar.compact constant
  | nonlinear left right => "Nonlinear term: (" ++ left.text ++ ") * (" ++ right.text ++ ")"
  | nonConstantDivisor => "Division must be by a constant number"
  | divisionByZero => "Division by zero"
  | unknownVariable name => "Unknown variable: " ++ name
  | invalid reason => reason.message

end CompileError

namespace LinearForm

/-- A product is linear if one of its factors is constant, the left one if both are. -/
def multiply (left right : LinearForm α) : Except (CompileError α) (LinearForm α) :=
  if left.isConstant then .ok (right.scale left.constant)
  else if right.isConstant then .ok (left.scale right.constant)
  else .error (.nonlinear left right)

def divide (left right : LinearForm α) : Except (CompileError α) (LinearForm α) :=
  if !right.isConstant then .error .nonConstantDivisor
  else if right.constant == 0 then .error .divisionByZero
  else .ok (left.scale (1 / right.constant))

def operate (left : LinearForm α) : Operator → LinearForm α →
    Except (CompileError α) (LinearForm α)
  | .add, right => .ok (left.addScaled right 1)
  | .sub, right => .ok (left.addScaled right (-1))
  | .mul, right => left.multiply right
  | .div, right => left.divide right

end LinearForm

/-- Reduces an expression to a linear form. -/
def Expr.linearize : Expr α → Except (CompileError α) (LinearForm α)
  | number x => .ok (.ofConstant x)
  | var v => .ok (.ofVariable v.name)
  | neg e => do
    let form ← e.linearize
    .ok (form.scale (-1))
  | paren e => e.linearize
  | binary left op right => do
    let left ← left.linearize
    let right ← right.linearize
    left.operate op right

namespace ConstraintStatement

/-- The left side less the right side. -/
def difference (c : ConstraintStatement α) : Except (CompileError α) (LinearForm α) := do
  let lhs ← c.lhs.linearize
  let rhs ← c.rhs.linearize
  .ok (lhs.addScaled rhs (-1))

end ConstraintStatement

namespace LinearForm

/-- Refuses terms in variables that are not listed. -/
def checkKnown (names : List String) (f : LinearForm α) : Except (CompileError α) Unit :=
  match f.support.find? fun name => !names.contains name with
  | some name => .error (.unknownVariable name)
  | none => .ok ()

/-- The condition that the form is so related to zero, with the constant moved to the right. -/
def toConstraint (names : List String) (relation : Relation) (f : LinearForm α) :
    Constraint α :=
  ⟨names.map fun name => Scalar.unsignedZero (f.coefficient name), relation,
    Scalar.unsignedZero (-f.constant)⟩

end LinearForm

/-- How the variables of a program are ordered. -/
inductive Declaration where
  /-- By their names, all that occur. -/
  | inferred
  /-- As listed, and no others may occur. -/
  | declared (names : List String)
  deriving DecidableEq, Repr

namespace Declaration

def order (d : Declaration) (forms : List (LinearForm α)) : List String :=
  match d with
  | declared names => names
  | inferred => VariableOrder.sort (forms.flatMap (·.terms.names))

/-- Constraints over known variables, from forms related to zero. -/
def constraints (names : List String) (forms : List (LinearForm α × Relation)) :
    Except (CompileError α) (List (Constraint α)) :=
  forms.mapM fun (form, relation) => do
    form.checkKnown names
    .ok (form.toConstraint names relation)

/-- The only objective of a program. -/
def onlyObjective (program : Program α) : Except (CompileError α) (ObjectiveStatement α) :=
  match program.objectives with
  | [] => .error .missingObjective
  | [o] => .ok o
  | many => .error (.multipleObjectives many.length)

/-- The form of an objective, which may have no constant. -/
def objectiveForm (o : ObjectiveStatement α) : Except (CompileError α) (LinearForm α) := do
  let form ← o.expr.linearize
  if form.constant == 0 then .ok form else .error (.objectiveConstant form.constant)

def compile (d : Declaration) (program : Program α) :
    Except (CompileError α) (CompiledProblem α) := do
  let objective ← onlyObjective program
  let objectiveForm ← objectiveForm objective
  let forms ← program.constraints.mapM fun c => do
    let form ← c.difference
    .ok (form, c.relation)
  let names := d.order (objectiveForm :: forms.map (·.1))
  objectiveForm.checkKnown names
  let constraints ← constraints names forms
  let problem : Problem α :=
    ⟨⟨names.map objectiveForm.coefficient, objective.sense⟩, constraints⟩
  match problem.validate with
  | .ok () => .ok ⟨names, objective.name, problem⟩
  | .error reason => .error (.invalid reason)

/-- Compiles a text. -/
def compileSource (d : Declaration) (source : String) :
    Except (CompileError α) (CompiledProblem α) := do
  match Program.parse source with
  | .ok program => d.compile program
  | .error reason => .error (.parse reason)

/-- The condition of one statement over known variables. -/
def constraintOf (names : List String) (c : ConstraintStatement α) :
    Except (CompileError α) (Constraint α) := do
  let form ← c.difference
  form.checkKnown names
  .ok (form.toConstraint names c.relation)

/-- Compiles a single chain of relations. -/
def compileConstraints (d : Declaration) (source : String) :
    Except (CompileError α) (List (Constraint α)) := do
  match ConstraintStatement.parse source with
  | .error reason => .error (.parse reason)
  | .ok statements =>
    let names ← match d with
      | declared names => .ok names
      | inferred => do
        let forms ← statements.mapM ConstraintStatement.difference
        .ok (inferred.order forms)
    statements.mapM (constraintOf names)

end Declaration

end LinearProgram
