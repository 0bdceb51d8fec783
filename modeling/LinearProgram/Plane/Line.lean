import LinearProgram.Solution

/-! # Boundary lines

The lines that bound the feasible region of a problem in two variables, and where they cross.
-/

namespace LinearProgram

/-- The line `a · x + b · y = c`. -/
structure Line (α : Type) where
  label : String
  a : α
  b : α
  c : α
  deriving DecidableEq, Repr

/-- Two lines in order and the point they share, if they are not parallel. -/
structure Crossing (α : Type) where
  first : String
  second : String
  point : Option (Point α)
  deriving DecidableEq, Repr

variable {α : Type} [Scalar α]

namespace Line

/-- The common point by Cramer's rule. Lines whose determinant is small beside its two products
count as parallel, coincident ones among them. -/
def intersection (tolerance : α) (l m : Line α) : Option (Point α) :=
  let det := l.a * m.b - m.a * l.b
  let size := Scalar.larger (Scalar.abs (l.a * m.b)) (Scalar.abs (m.a * l.b))
  if Scalar.abs det ≤ tolerance * size then none
  else
    some ⟨Scalar.unsignedZero ((l.c * m.b - m.c * l.b) / det),
      Scalar.unsignedZero ((l.a * m.c - m.a * l.c) / det)⟩

def crossing (tolerance : α) (l m : Line α) : Crossing α :=
  ⟨l.label, m.label, l.intersection tolerance m⟩

end Line

/-- The line on which a constraint with two coefficients is tight. -/
def Constraint.line (label : String) (c : Constraint α) : Line α :=
  ⟨label, c.coefficients.getD 0 0, c.coefficients.getD 1 0, c.bound⟩

def axes : List (Line α) := [⟨"x = 0", 1, 0, 0⟩, ⟨"y = 0", 0, 1, 0⟩]

/-- The lines of the rows that have one, then both axes. -/
def Problem.boundaryLines (tolerance : α) (p : Problem α) : List (Line α) :=
  (p.constraints.zipIdx.filterMap fun (c, i) =>
    if c.isDegenerate tolerance then none else some (c.line (rowLabel i))) ++ axes

/-- Every pair of entries once, the earlier entry first. -/
def pairs {β : Type} : List β → List (β × β)
  | [] => []
  | x :: rest => rest.map (x, ·) ++ pairs rest

def crossings (tolerance : α) (lines : List (Line α)) : List (Crossing α) :=
  (pairs lines).map fun (l, m) => l.crossing tolerance m

end LinearProgram
