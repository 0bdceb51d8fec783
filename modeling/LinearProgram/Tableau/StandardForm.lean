import LinearProgram.Tableau.Basic
import LinearProgram.Trace.Event

/-! # Standard form

A problem becomes a system of equations: a row with a negative bound is multiplied by `-1`, then
`≤` gains a slack, `≥` a surplus and an artificial, `=` an artificial column.
-/

namespace LinearProgram

variable {α : Type} [Scalar α]

/-- The same condition with a bound that is not negative. -/
def Constraint.normalized (c : Constraint α) : Constraint α :=
  if c.bound < 0 then c.flipped else c

namespace Relation

/-- How many columns of a kind a row with this relation brings. -/
def columns (relation : Relation) : ColumnKind → Nat
  | .decision => 0
  | .slack => if relation = .le then 1 else 0
  | .surplus => if relation = .ge then 1 else 0
  | .artificial => if relation = .le then 0 else 1

end Relation

/-- The number of columns of a kind that the rows bring. -/
def columnsNeeded (kind : ColumnKind) (rows : List (Constraint α)) : Nat :=
  rows.foldr (fun c n => c.relation.columns kind + n) 0

def numberedColumns (base : String) (kind : ColumnKind) (n : Nat) : List Column :=
  (numberedNames base n).map (⟨·, kind⟩)

/-- `n` entries that are zero but for `x` at position `i`. -/
def unitEntries (n i : Nat) (x : α) : List α := (List.replicate n 0).set i x

/-- The columns of a kind in the row behind `before`, of `n` such columns: `x` in the row's own
column if it has one. -/
def ownEntries (kind : ColumnKind) (n : Nat) (before : List (Constraint α)) (c : Constraint α)
    (x : α) : List α :=
  if c.relation.columns kind = 0 then List.replicate n 0
  else unitEntries n (columnsNeeded kind before) x

namespace Problem

/-- The constraints with bounds that are not negative. -/
def normalizedRows (p : Problem α) : List (Constraint α) := p.constraints.map Constraint.normalized

/-- Reports the rows that were multiplied by `-1`. -/
def normalizations (p : Problem α) : Trace α :=
  p.constraints.zipIdx.filterMap fun (c, i) =>
    if c.bound < 0 then some (.rowNormalized (rowLabel i) c.relation.flipped) else none

def standardColumns (p : Problem α) : List Column :=
  let rows := p.normalizedRows
  numberedColumns "x" .decision p.variableCount ++
    numberedColumns "s" .slack (columnsNeeded .slack rows) ++
    numberedColumns "e" .surplus (columnsNeeded .surplus rows) ++
    numberedColumns "a" .artificial (columnsNeeded .artificial rows)

/-- The tableau row of a constraint behind `before`: its coefficients, its slack or surplus and its
artificial. The slack is basic, or else the artificial. -/
def standardRow (p : Problem α) (before : List (Constraint α)) (c : Constraint α) : BasicRow α :=
  let rows := p.normalizedRows
  let slacks := columnsNeeded .slack rows
  let surpluses := columnsNeeded .surplus rows
  let artificials := columnsNeeded .artificial rows
  { entries := c.coefficients ++ ownEntries .slack slacks before c 1 ++
      ownEntries .surplus surpluses before c (-1) ++ ownEntries .artificial artificials before c 1
    solution := c.bound
    basic :=
      if c.relation = .le then p.variableCount + columnsNeeded .slack before
      else p.variableCount + slacks + surpluses + columnsNeeded .artificial before }

/-- The rows of the constraints that follow `before`. -/
def standardRows (p : Problem α) (before : List (Constraint α)) :
    List (Constraint α) → List (BasicRow α)
  | [] => []
  | c :: rest => p.standardRow before c :: standardRows p (before ++ [c]) rest

/-- The tableau in standard form, with an objective row of zeros. -/
def standardForm (p : Problem α) : Tableau α where
  columns := p.standardColumns
  rows := p.standardRows [] p.normalizedRows
  objective := ⟨List.replicate p.standardColumns.length 0, 0⟩

end Problem

end LinearProgram
