import LinearProgram.Tableau.Pivot

/-! # Stages

One run of the pivot loop on one objective: the pivots in order and why they stopped. Traces,
snapshots and logs are read off a stage afterwards.
-/

namespace LinearProgram

/-- What a stage optimizes and which columns may enter. -/
structure Goal (α : Type) where
  sense : Sense
  allowed : Nat → Bool
  tolerance : α

/-- One pivot, with the tableaus before and after it. -/
structure Pivot (α : Type) where
  before : Tableau α
  column : Nat
  ratios : List (Option α)
  row : Nat
  after : Tableau α
  deriving DecidableEq, Repr

inductive Ending (α : Type) where
  /-- No column improves the objective. -/
  | optimal
  /-- The column improves the objective and no row bounds it. -/
  | unbounded (column : Nat) (ratios : List (Option α))
  /-- A column improves the objective, but the pivots are used up. -/
  | outOfPivots
  deriving DecidableEq, Repr

structure Stage (α : Type) where
  pivots : List (Pivot α)
  final : Tableau α
  ending : Ending α
  deriving DecidableEq, Repr

variable {α : Type} [Scalar α]

def Goal.entering? (goal : Goal α) (t : Tableau α) : Option Nat :=
  t.enteringColumn goal.tolerance goal.sense goal.allowed

/-- Pivots at most `budget` times. -/
def Goal.run (goal : Goal α) : Nat → Tableau α → Stage α
  | 0, t =>
    match goal.entering? t with
    | none => ⟨[], t, .optimal⟩
    | some _ => ⟨[], t, .outOfPivots⟩
  | budget + 1, t =>
    match goal.entering? t with
    | none => ⟨[], t, .optimal⟩
    | some column =>
      let ratios := t.ratios goal.tolerance column
      match Tableau.leavingRow goal.tolerance ratios with
      | none => ⟨[], t, .unbounded column ratios⟩
      | some row =>
        let after := t.pivot goal.tolerance row column
        let rest := goal.run budget after
        { rest with pivots := ⟨t, column, ratios, row, after⟩ :: rest.pivots }

/-- A stage and where it starts: costs are loaded into a tableau. -/
structure Leg (α : Type) where
  goal : Goal α
  loaded : Tableau α
  costs : List α
  budget : Nat

namespace Leg

def start (leg : Leg α) : Tableau α := leg.loaded.setObjective leg.goal.tolerance leg.costs

def stage (leg : Leg α) : Stage α := leg.goal.run leg.budget leg.start

end Leg

namespace Pivot

def entering (p : Pivot α) : String := p.before.columnName p.column

def leaving (p : Pivot α) : String := ((p.before.rows[p.row]?).map p.before.basicName).getD ""

def element (p : Pivot α) : α := ((p.before.rows[p.row]?).map (·.entry p.column)).getD 0

end Pivot

end LinearProgram
