import LinearProgram.Proofs.Checked.Access
import LinearProgram.Proofs.Verdict

/-! # Tables

A tableau as a table of numbers, the objective row at its end and the solution entry at the end of
every row, beside the list of the basic columns. Entries, rows and columns are found by position;
in the table of a tableau of the right shape every position that is looked at is in range.
-/

namespace LinearProgram

namespace Checked

structure Table (α : Type) where
  data : List (List α)
  /-- The basic column of every row. -/
  basics : List ℕ
  columns : List Column
  /-- The number of decision variables. -/
  decisions : ℕ

namespace Table

variable {α : Type} [Scalar α]

/-- The number of constraint rows, which is the position of the objective row. -/
def rowCount (g : Table α) : Except Fault ℕ := last g.data

def entry (g : Table α) (i j : ℕ) : Except Fault α := do read (← read g.data i) j

def basicValue (g : Table α) (i : ℕ) : Except Fault α := g.entry i g.columns.length

def reducedCost (g : Table α) (j : ℕ) : Except Fault α := do g.entry (← g.rowCount) j

def objectiveValue (g : Table α) : Except Fault α := do g.basicValue (← g.rowCount)

def columnName (g : Table α) (j : ℕ) : Except Fault String := do .ok (← read g.columns j).name

def basicName (g : Table α) (i : ℕ) : Except Fault String := do g.columnName (← read g.basics i)

def isArtificial (g : Table α) (j : ℕ) : Except Fault Bool := do
  .ok ((← read g.columns j).kind == .artificial)

/-- Enters the value of a row if its basic column is a decision variable. -/
def assignRow (g : Table α) (values : List α) (i : ℕ) : Except Fault (List α) := do
  let basic ← read g.basics i
  if basic < g.decisions then write values basic (Scalar.unsignedZero (← g.basicValue i))
  else .ok values

/-- The values of the decision variables. -/
def assignment (g : Table α) : Except Fault (List α) :=
  (List.range g.basics.length).foldlM g.assignRow (List.replicate g.decisions 0)

/-- The rows in which an artificial variable is basic at a positive value. -/
def positiveArtificials (tolerance : α) (g : Table α) : Except Fault (List ℕ) := do
  select (fun i => do
    if ← g.isArtificial (← read g.basics i) then
      let value ← g.basicValue i
      .ok (decide (tolerance < value))
    else .ok false) (List.range (← g.rowCount))

/-- The columns, neither basic nor artificial, that do not change the objective. -/
def ties (tolerance : α) (g : Table α) : Except Fault (List ℕ) :=
  select (fun j => do
    if ← g.isArtificial j then .ok false
    else if g.basics.contains j then .ok false
    else
      let cost ← g.reducedCost j
      .ok (decide (Scalar.abs cost ≤ tolerance))) (List.range g.columns.length)

/-- Whether a basic variable that is not artificial sits at zero. -/
def isDegenerate (tolerance : α) (g : Table α) : Except Fault Bool := do
  (List.range (← g.rowCount)).anyM fun i => do
    if ← g.isArtificial (← read g.basics i) then .ok false
    else
      let value ← g.basicValue i
      .ok (decide (Scalar.abs value ≤ tolerance))

def snapshot (phase : Option ℕ) (iteration : ℕ) (description : String) (g : Table α) :
    Except Fault (Snapshot α) := do
  let names ← (List.range (← g.rowCount)).mapM g.basicName
  .ok
    { phase := phase
      iteration := iteration
      columns := g.columns.map (·.name)
      grid := g.data.map (·.map Scalar.unsignedZero)
      basicVariables := names
      enteringColumn := none
      leavingRow := none
      pivotElement := none
      ratios := []
      description := description }

/-- One cost per column, for a problem with these coefficients. -/
def costs (coefficients : List α) (artificial : α) (g : Table α) : Except Fault (List α) :=
  (List.range g.columns.length).mapM fun j => do
    match (← read g.columns j).kind with
    | .decision => read coefficients j
    | .artificial => .ok artificial
    | .slack | .surplus => .ok 0

/-- One for every artificial column, zero for all others. -/
def artificialCosts (g : Table α) : Except Fault (List α) :=
  (List.range g.columns.length).mapM fun j => do .ok (if ← g.isArtificial j then 1 else 0)

end Table

end Checked

namespace Tableau

open Checked

def table {α : Type} [Scalar α] (t : Tableau α) : Table α :=
  ⟨t.grid, t.rows.map (·.basic), t.columns, t.count .decision⟩

/-- All rows are as wide as the tableau, and the basic columns are among its columns. -/
structure IsShaped (t : Tableau ℚ) : Prop where
  width : ∀ r ∈ t.rows, r.entries.length = t.columnCount
  objective_width : t.objective.entries.length = t.columnCount
  basic_lt : ∀ r ∈ t.rows, r.basic < t.columnCount

end Tableau

namespace Checked

section Values

variable {r : Row ℚ} {j n : ℕ}

theorem getElem?_values_last (h : r.entries.length = n) : r.values[n]? = some r.solution := by
  rw [Row.values, ← h, List.getElem?_concat_length]

theorem values_set (h : j < r.entries.length) (x : ℚ) : (r.set j x).values = r.values.set j x := by
  rw [Row.values, Row.values, List.set_append_left _ _ h]
  rfl

theorem values_map (f : ℚ → ℚ) (r : Row ℚ) : (r.map f).values = r.values.map f := by
  rw [Row.values, Row.values, List.map_append]
  rfl

end Values

namespace Table

variable {t : Tableau ℚ} {r : BasicRow ℚ} {i j : ℕ} {tolerance : ℚ}

theorem getElem?_data (hr : t.rows[i]? = some r) : t.table.data[i]? = some r.values := by
  obtain ⟨hi, rfl⟩ := List.getElem?_eq_some_iff.mp hr
  rw [Tableau.table, Tableau.grid, List.getElem?_append_left (by simpa using hi),
    List.getElem?_map, hr]
  rfl

theorem getElem?_data_last (t : Tableau ℚ) :
    t.table.data[t.rows.length]? = some t.objective.values := by
  simp [Tableau.table, Tableau.grid]

theorem length_data (t : Tableau ℚ) : t.table.data.length = t.rows.length + 1 := by
  simp [Tableau.table, Tableau.grid]

@[simp] theorem rowCount_eq_ok (t : Tableau ℚ) : t.table.rowCount = .ok t.rows.length :=
  last_eq_ok (length_data t)

theorem read_basics_eq_ok (hr : t.rows[i]? = some r) : read t.table.basics i = .ok r.basic :=
  read_eq_ok (by rw [Tableau.table, List.getElem?_map, hr]; rfl)

theorem exists_column (hj : j < t.columnCount) : ∃ column, t.columns[j]? = some column :=
  ⟨_, List.getElem?_eq_getElem hj⟩

theorem read_columns_eq_ok {column : Column} (hj : t.columns[j]? = some column) :
    read t.table.columns j = .ok column :=
  read_eq_ok hj

theorem columnName_eq_ok (hj : j < t.columnCount) :
    t.table.columnName j = .ok (t.columnName j) := by
  obtain ⟨column, hcolumn⟩ := exists_column hj
  have hname : t.columnNames[j]? = some column.name := by
    rw [Tableau.columnNames, List.getElem?_map, hcolumn, Option.map_some]
  rw [columnName, read_columns_eq_ok hcolumn, ok_bind, Tableau.columnName, hname]
  rfl

theorem isArtificial_eq_ok (hj : j < t.columnCount) :
    t.table.isArtificial j = .ok (t.isArtificial j) := by
  obtain ⟨column, hcolumn⟩ := exists_column hj
  rw [isArtificial, read_columns_eq_ok hcolumn, ok_bind, Tableau.isArtificial,
    hcolumn]
  rfl

theorem exists_row (hi : i < t.rows.length) : ∃ r, t.rows[i]? = some r :=
  ⟨_, List.getElem?_eq_getElem hi⟩

theorem contains_basics (t : Tableau ℚ) (j : ℕ) :
    t.table.basics.contains j = t.rows.any (·.basic == j) := by
  rw [Tableau.table, List.contains_eq_any_beq, List.any_map]
  exact List.any_congr rfl fun _ => Bool.beq_comm

/-- The assignment as far as it is known from the first rows. -/
def assignmentOf {α : Type} [Scalar α] (decisions : ℕ) (rows : List (BasicRow α)) : List α :=
  (List.range decisions).map fun col =>
    match rows.reverse.find? (·.basic == col) with
    | some r => Scalar.unsignedZero r.solution
    | none => 0

theorem assignmentOf_nil (decisions : ℕ) :
    assignmentOf decisions [] = List.replicate decisions (0 : ℚ) :=
  (List.map_const' ..).trans (congrArg (List.replicate · _) List.length_range)

theorem assignmentOf_concat (decisions : ℕ) (rows : List (BasicRow ℚ)) (r : BasicRow ℚ) :
    assignmentOf decisions (rows ++ [r]) =
      (assignmentOf decisions rows).set r.basic (Scalar.unsignedZero r.solution) := by
  refine List.ext_getElem? fun col => ?_
  simp only [assignmentOf, List.getElem?_set, List.getElem?_map, List.length_map, List.length_range,
    List.reverse_append, List.reverse_singleton, List.singleton_append, List.find?_cons]
  by_cases hcol : r.basic = col
  · subst hcol
    by_cases hlt : r.basic < decisions <;> simp [hlt]
  · have hbeq : (r.basic == col) = false := by simpa using hcol
    by_cases hlt : col < decisions <;> simp [hlt, hcol, hbeq]

section Shaped

variable (h : t.IsShaped)

include h

theorem basic_lt (hr : t.rows[i]? = some r) : r.basic < t.columnCount :=
  h.basic_lt r (List.mem_of_getElem? hr)

theorem entry_eq_ok (hr : t.rows[i]? = some r) (hj : j < t.columnCount) :
    t.table.entry i j = .ok (r.entry j) := by
  rw [entry, read_eq_ok (getElem?_data hr), ok_bind]
  exact read_eq_ok (Row.getElem?_values ((h.width r (List.mem_of_getElem? hr)).symm ▸ hj))

theorem basicValue_eq_ok (hr : t.rows[i]? = some r) : t.table.basicValue i = .ok r.solution := by
  rw [basicValue, entry, read_eq_ok (getElem?_data hr), ok_bind]
  exact read_eq_ok (getElem?_values_last (h.width r (List.mem_of_getElem? hr)))

theorem reducedCost_eq_ok (hj : j < t.columnCount) :
    t.table.reducedCost j = .ok (t.reducedCost j) := by
  rw [reducedCost, rowCount_eq_ok, ok_bind, entry, read_eq_ok (getElem?_data_last t), ok_bind]
  exact read_eq_ok (Row.getElem?_values (h.objective_width.symm ▸ hj))

theorem objectiveValue_eq_ok : t.table.objectiveValue = .ok t.objectiveValue := by
  rw [objectiveValue, rowCount_eq_ok, ok_bind, basicValue, entry,
    read_eq_ok (getElem?_data_last t), ok_bind]
  exact read_eq_ok (getElem?_values_last h.objective_width)

theorem basicName_eq_ok (hr : t.rows[i]? = some r) :
    t.table.basicName i = .ok (t.basicName r) := by
  rw [basicName, read_basics_eq_ok hr, ok_bind, columnName_eq_ok (basic_lt h hr)]
  rfl

theorem assignRow_eq_ok (hi : i < t.rows.length) :
    t.table.assignRow (assignmentOf t.table.decisions (t.rows.take i)) i =
      .ok (assignmentOf t.table.decisions (t.rows.take (i + 1))) := by
  obtain ⟨r, hr⟩ := exists_row hi
  have htake : t.rows.take (i + 1) = t.rows.take i ++ [r] := by
    rw [List.take_add_one, hr, Option.toList_some]
  have hlen : (assignmentOf t.table.decisions (t.rows.take i)).length = t.table.decisions := by
    rw [assignmentOf, List.length_map, List.length_range]
  rw [assignRow, read_basics_eq_ok hr, ok_bind, basicValue_eq_ok h hr, ok_bind, htake,
    assignmentOf_concat]
  split
  · next hlt => exact write_eq_ok (hlen.symm ▸ hlt) _
  · next hge => rw [List.set_eq_of_length_le (hlen.trans_le (not_lt.mp hge))]

theorem assignment_eq_ok : t.table.assignment = .ok t.assignment := by
  have hloop := loop_eq_ok (fun i => assignmentOf t.table.decisions (t.rows.take i))
    fun i (hi : i < t.rows.length) => assignRow_eq_ok h hi
  rw [List.take_length, List.take_zero, assignmentOf_nil] at hloop
  rw [assignment, show t.table.basics.length = t.rows.length from List.length_map _, hloop]
  rfl

theorem positiveArtificials_eq_ok (tolerance : ℚ) : ∃ positive,
    t.table.positiveArtificials tolerance = .ok positive ∧
      (positive = [] ∧ t.positiveArtificial? tolerance = none ∨
        ∃ row rest r, positive = row :: rest ∧ t.rows[row]? = some r ∧
          t.positiveArtificial? tolerance = some r) := by
  refine ⟨_, ?_, find?_of_filter_range t.rows _⟩
  rw [positiveArtificials, rowCount_eq_ok, ok_bind]
  refine select_eq_ok fun i hi => ?_
  obtain ⟨r, hr⟩ := exists_row (List.mem_range.mp hi)
  rw [read_basics_eq_ok hr, ok_bind, isArtificial_eq_ok (basic_lt h hr), ok_bind,
    basicValue_eq_ok h hr, ok_bind, hr, Option.any_some]
  cases t.isArtificial r.basic <;> rfl

theorem ties_eq_ok (tolerance : ℚ) : ∃ ties, t.table.ties tolerance = .ok ties ∧
    ties.isEmpty = !t.hasTie tolerance := by
  refine ⟨(List.range t.columnCount).filter fun j => !t.isArtificial j &&
    !(t.rows.any (·.basic == j)) && decide (Scalar.abs (t.reducedCost j) ≤ tolerance), ?_, ?_⟩
  · refine select_eq_ok fun j hj => ?_
    have hlt : j < t.columnCount := List.mem_range.mp hj
    rw [isArtificial_eq_ok hlt, ok_bind, reducedCost_eq_ok h hlt, ok_bind, contains_basics]
    cases t.isArtificial j <;> cases t.rows.any (·.basic == j) <;> rfl
  · rw [Bool.eq_iff_iff]
    simp [Tableau.hasTie]

theorem isDegenerate_eq_ok : t.table.isDegenerate tolerance = .ok (t.isDegenerate tolerance) := by
  rw [isDegenerate, rowCount_eq_ok, ok_bind, Tableau.isDegenerate, ← any_range]
  refine anyM_eq_ok fun i hi => ?_
  obtain ⟨r, hr⟩ := exists_row (List.mem_range.mp hi)
  rw [read_basics_eq_ok hr, ok_bind, isArtificial_eq_ok (basic_lt h hr), ok_bind,
    basicValue_eq_ok h hr, ok_bind, hr, Option.any_some]
  cases t.isArtificial r.basic <;> rfl

theorem snapshot_eq_ok (phase : Option ℕ) (iteration : ℕ) (description : String) :
    t.table.snapshot phase iteration description =
      .ok (t.snapshot phase iteration description) := by
  rw [snapshot, rowCount_eq_ok, ok_bind,
    mapM_range_eq_ok fun i r hr => basicName_eq_ok h hr, ok_bind]
  rfl

end Shaped

section Costs

variable {p : Problem ℚ} (hc : t.columns = p.standardColumns)

include hc

theorem lt_variableCount_of_kind {column : Column} (hj : t.columns[j]? = some column)
    (hkind : column.kind = .decision) : j < p.variableCount := by
  have hsome : (p.standardColumns.map (·.kind))[j]? = some .decision := by
    rw [← hc, List.getElem?_map, hj, Option.map_some, hkind]
  by_contra hge
  rw [Problem.map_kind_standardColumns, List.append_assoc, List.append_assoc,
    List.getElem?_append_right (by simpa using hge)] at hsome
  have hmem := List.mem_of_getElem? hsome
  simp [List.mem_replicate] at hmem

theorem costs_eq_ok {coefficients : List ℚ} (hlen : coefficients.length = p.variableCount)
    (artificial : ℚ) :
    t.table.costs coefficients artificial = .ok (t.costs coefficients artificial) := by
  refine mapM_zipIdx_eq_ok t.columns
    (g := fun column j => column.kind.cost (coefficients.getD j 0) artificial)
    fun j column hcolumn => ?_
  rw [read_columns_eq_ok hcolumn, ok_bind]
  cases hkind : column.kind with
  | decision =>
    have hcoef : j < coefficients.length :=
      hlen.symm ▸ lt_variableCount_of_kind hc hcolumn hkind
    rw [ColumnKind.cost, List.getD_eq_getElem _ _ hcoef]
    exact read_eq_ok (List.getElem?_eq_getElem hcoef)
  | slack => rfl
  | surplus => rfl
  | artificial => rfl

omit hc in
theorem artificialCosts_eq_ok (t : Tableau ℚ) (n : ℕ) :
    t.table.artificialCosts = .ok (t.costs (List.replicate n 0) 1) := by
  refine mapM_zipIdx_eq_ok t.columns
    (g := fun column j => column.kind.cost ((List.replicate n 0).getD j 0) 1)
    fun j column hcolumn => ?_
  rw [isArtificial, read_columns_eq_ok hcolumn, ok_bind, ok_bind]
  cases column.kind <;> simp [ColumnKind.cost]

end Costs

end Table

end Checked

end LinearProgram
