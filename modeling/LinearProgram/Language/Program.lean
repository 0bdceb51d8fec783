import LinearProgram.Language.Token
import LinearProgram.Problem.Basic

/-! # Programs

The tree of a problem text: statements that are objectives or constraints, over expressions that
need not be linear yet.
-/

namespace LinearProgram

inductive Operator where
  | add
  | sub
  | mul
  | div
  deriving DecidableEq, Repr

def Operator.symbol : Operator → String
  | .add => "+"
  | .sub => "-"
  | .mul => "*"
  | .div => "/"

structure Variable where
  span : Span
  name : String
  deriving DecidableEq, Repr

inductive Expr (α : Type) where
  | number (x : α)
  | var (v : Variable)
  | neg (e : Expr α)
  | binary (left : Expr α) (op : Operator) (right : Expr α)
  | paren (e : Expr α)
  deriving DecidableEq, Repr

/-- As in `max 3x + 2y` or `max z = 3x + 2y`. -/
structure ObjectiveStatement (α : Type) where
  span : Span
  sense : Sense
  /-- The name that the objective is given. -/
  name : Option String
  expr : Expr α
  deriving DecidableEq, Repr

/-- As in `x + y <= 4`; both sides may hold variables and constants. -/
structure ConstraintStatement (α : Type) where
  span : Span
  lhs : Expr α
  relation : Relation
  rhs : Expr α
  deriving DecidableEq, Repr

inductive Statement (α : Type) where
  | objective (o : ObjectiveStatement α)
  | constraint (c : ConstraintStatement α)
  deriving DecidableEq, Repr

namespace Statement

variable {α : Type}

def objective? : Statement α → Option (ObjectiveStatement α)
  | objective o => some o
  | constraint _ => none

def constraint? : Statement α → Option (ConstraintStatement α)
  | objective _ => none
  | constraint c => some c

end Statement

structure Program (α : Type) where
  statements : List (Statement α)
  deriving DecidableEq, Repr

namespace Program

variable {α : Type}

def objectives (p : Program α) : List (ObjectiveStatement α) :=
  p.statements.filterMap Statement.objective?

def constraints (p : Program α) : List (ConstraintStatement α) :=
  p.statements.filterMap Statement.constraint?

end Program

end LinearProgram
