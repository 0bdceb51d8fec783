import LinearProgram.Number.Fixed

/-! # Scalars

The arithmetic that problems, tableaus and points are written over. Doubles are what the program
computes with; exact rationals run the same definitions without rounding.
-/

namespace LinearProgram

/-- Arithmetic with a decidable order, in which every scalar stands for an exact value. -/
class Scalar (α : Type) extends Add α, Sub α, Mul α, Div α, Neg α, Zero α, One α, LT α, LE α, BEq α,
    OfScientific α where
  decidableLT : DecidableLT α
  decidableLE : DecidableLE α
  abs : α → α
  /-- The larger of two scalars, the second if neither is; what is not a number never wins. -/
  larger : α → α → α
  exact : α → Exact

attribute [reducible, instance] Scalar.decidableLT Scalar.decidableLE

instance : Scalar Float where
  decidableLT := inferInstance
  decidableLE := inferInstance
  abs := Float.abs
  larger a b := if b < a || b.isNaN then a else b
  exact := Exact.ofFloat

instance : Scalar Rat where
  toZero := ⟨0⟩
  toOne := ⟨1⟩
  decidableLT := inferInstance
  decidableLE := inferInstance
  abs q := if q < 0 then -q else q
  larger a b := if b < a then a else b
  exact := Exact.ofRat

namespace Scalar

variable {α : Type} [Scalar α]

def isFinite (x : α) : Bool := (exact x).isFinite

/-- The scalar with a fixed number of decimals. -/
def fixed (places : Nat) (x : α) : String := (exact x).fixed places

/-- A negative zero becomes a positive one; every other scalar stays. -/
def unsignedZero (x : α) : α := x + 0

/-- Sums run from the left and start at negative zero, which adding leaves every scalar as it is. -/
def sum (xs : List α) : α := xs.foldl (· + ·) (-0)

/-- The products of two lists in step, summed; the longer list is cut. -/
def dot (xs ys : List α) : α := sum (List.zipWith (· * ·) xs ys)

/-- The larger magnitude of two scalars, but at least one: the unit of a relative tolerance. -/
def scale (a b : α) : α := larger (larger 1 (abs a)) (abs b)

/-- Equality within a tolerance that grows with the operands once they exceed one. -/
def approxEq (tolerance a b : α) : Bool := decide (abs (a - b) ≤ tolerance * scale a b)

/-- The tolerance of zero tests, duplicates and ties unless another is asked for. -/
def defaultTolerance : α := 1e-9

/-- The scalar as a reader would write it: whole numbers below `1e15` without a point, others with
up to four decimals. -/
def compact (x : α) : String :=
  match if abs x < 1e15 then (exact x).whole? else none with
  | some n => toString n
  | none => String.ofList (Text.dropTrailing '.' (Text.dropTrailing '0' (fixed 4 x).toList))

end Scalar

end LinearProgram
