import LinearProgram.Number.Scalar

/-! # Linear programs

An objective to be made large or small over the points with non-negative coordinates that satisfy
every constraint. Coefficients are listed by variable: position `i` belongs to variable `i`.
-/

namespace LinearProgram

inductive Sense where
  | maximize
  | minimize
  deriving DecidableEq, Repr

inductive Relation where
  | le
  | ge
  | eq
  deriving DecidableEq, Repr

namespace Relation

/-- The relation that holds once both sides are multiplied by `-1`. -/
def flipped : Relation → Relation
  | le => ge
  | ge => le
  | eq => eq

/-- Whether `lhs` and `rhs` are so related, up to a slack scaled by their size. -/
def holds {α : Type} [Scalar α] (tolerance : α) (relation : Relation) (lhs rhs : α) : Bool :=
  let slack := tolerance * Scalar.scale lhs rhs
  match relation with
  | le => decide (lhs ≤ rhs + slack)
  | ge => decide (rhs - slack ≤ lhs)
  | eq => Scalar.approxEq tolerance lhs rhs

end Relation

structure Objective (α : Type) where
  coefficients : List α
  sense : Sense
  deriving DecidableEq, Repr

structure Constraint (α : Type) where
  coefficients : List α
  relation : Relation
  bound : α
  deriving DecidableEq, Repr

structure Problem (α : Type) where
  objective : Objective α
  constraints : List (Constraint α)
  deriving DecidableEq, Repr

variable {α : Type} [Scalar α]

namespace Objective

def evaluate (objective : Objective α) (point : List α) : α :=
  Scalar.dot objective.coefficients point

/-- Whether the candidate is strictly better than the incumbent. -/
def improves (objective : Objective α) (candidate incumbent : α) : Bool :=
  match objective.sense with
  | .maximize => decide (incumbent < candidate)
  | .minimize => decide (candidate < incumbent)

end Objective

namespace Constraint

def lhs (c : Constraint α) (point : List α) : α := Scalar.dot c.coefficients point

def isSatisfied (tolerance : α) (c : Constraint α) (point : List α) : Bool :=
  c.relation.holds tolerance (c.lhs point) c.bound

/-- How far the point is from satisfying the constraint; zero when it does. -/
def violation (c : Constraint α) (point : List α) : α :=
  match c.relation with
  | .le => Scalar.larger (c.lhs point - c.bound) 0
  | .ge => Scalar.larger (c.bound - c.lhs point) 0
  | .eq => Scalar.abs (c.lhs point - c.bound)

/-- All coefficients vanish, so the constraint describes no line. -/
def isDegenerate (tolerance : α) (c : Constraint α) : Bool :=
  c.coefficients.all fun a => decide (Scalar.abs a ≤ tolerance)

/-- The same condition with both sides multiplied by `-1`. -/
def flipped (c : Constraint α) : Constraint α :=
  ⟨c.coefficients.map (-·), c.relation.flipped, -c.bound⟩

end Constraint

namespace Problem

def variableCount (p : Problem α) : Nat := p.objective.coefficients.length

def constraintCount (p : Problem α) : Nat := p.constraints.length

def addConstraint (p : Problem α) (c : Constraint α) : Problem α :=
  { p with constraints := p.constraints ++ [c] }

end Problem

/-- The name that reports give the constraint at a position. -/
def rowLabel (i : Nat) : String := "R" ++ toString (i + 1)

/-- Names `x1`, `x2`, … of numbered variables. -/
def numberedNames (base : String) (n : Nat) : List String :=
  (List.range n).map fun i => base ++ toString (i + 1)

/-- Two variables are `x` and `y`, any other number of them `x1`, `x2`, … -/
def variableNames (n : Nat) : List String :=
  if n = 2 then ["x", "y"] else numberedNames "x" n

end LinearProgram
