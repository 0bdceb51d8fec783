import LinearProgram.Proofs.Checked.Pivoting

/-! # Checked stages

The pivot loop and the removal of artificials on a table, with the record that they keep. Every
pivot element passed a test that excludes zero, so on the table of a tableau of the right shape
neither of them has a fault.
-/

namespace LinearProgram

namespace Checked

/-- The record without its log. -/
def quiet {α : Type} (r : Record α) : Record α := { r with log := [] }

theorem note_quiet {α : Type} (r : Record α) (e : Event α) :
    (quiet r).note e = quiet (r.note e) := rfl

namespace Table

variable {α : Type} [Scalar α]

/-- Keeps the table that a stage starts from. -/
def openStage (phase : Option ℕ) (description : String) (g : Table α) (r : Record α) :
    Except Fault (Record α) := do
  let snapshot ← g.snapshot phase r.iterations description
  .ok ((r.keep snapshot).note (.initialTableau r.tableaus.length))

/-- Notes the choice of an entering column, the ratios of its rows and the leaving row. -/
def choose (g : Table α) (col : ℕ) (ratios : List (Option α)) (row : Option ℕ) (r : Record α) :
    Except Fault (Record α) := do
  let entering ← g.columnName col
  let cost ← g.reducedCost col
  let leaving ← row.mapM g.basicName
  .ok ((r.note (.enteringVariable (r.iterations + 1) col entering cost)).note
    (.ratioTest (r.iterations + 1) ratios row leaving))

/-- One pivot of the loop. -/
def exchange (tolerance : α) (phase : Option ℕ) (g : Table α) (col : ℕ)
    (ratios : List (Option α)) (row : ℕ) (r : Record α) : Except Fault (Table α × Record α) := do
  let chosen ← g.choose col ratios (some row) r
  let iteration := r.iterations + 1
  let entering ← g.columnName col
  let leaving ← g.basicName row
  let element ← g.entry row col
  let before ← g.objectiveValue
  let after ← g.pivot tolerance row col
  let snapshot ← after.snapshot phase iteration
    ("Iteration " ++ toString iteration ++ ": " ++ entering ++ " enters, " ++ leaving ++ " leaves")
  let value ← after.objectiveValue
  .ok (after,
    { r with
      trace := chosen.trace ++ [.pivot iteration row col element entering leaving before value
        r.tableaus.length]
      tableaus := r.tableaus ++ [{ snapshot with
        enteringColumn := some col
        leavingRow := some row
        pivotElement := some element
        ratios := ratios }]
      iterations := iteration })

/-- Pivots at most `budget` times. -/
def iterate (tolerance : α) (sense : Sense) (allowed : ℕ → Except Fault Bool)
    (phase : Option ℕ) (limit : ℕ) :
    ℕ → Table α → Record α → Except Fault (Ending α × Table α × Record α)
  | 0, g, r => do
    match ← g.enteringColumn tolerance sense allowed with
    | none => .ok (.optimal, g, r.note (.optimalityReached r.iterations))
    | some _ => .ok (.outOfPivots, g, r.note (.iterationLimit limit))
  | budget + 1, g, r => do
    match ← g.enteringColumn tolerance sense allowed with
    | none => .ok (.optimal, g, r.note (.optimalityReached r.iterations))
    | some col =>
      let ratios ← g.ratios tolerance col
      match Tableau.leavingRow tolerance ratios with
      | none =>
        let chosen ← g.choose col ratios none r
        .ok (.unbounded col ratios, g, chosen.note (.unbounded (← g.columnName col)))
      | some row =>
        let (g, r) ← g.exchange tolerance phase col ratios row r
        iterate tolerance sense allowed phase limit budget g r

/-- Loads costs and pivots from there. -/
def stage (tolerance : α) (sense : Sense) (allowed : ℕ → Except Fault Bool) (phase : Option ℕ)
    (description : String) (limit : ℕ) (costs : List α) (g : Table α) (r : Record α) :
    Except Fault (Ending α × Table α × Record α) := do
  let g ← g.setObjective tolerance costs
  let r ← g.openStage phase description r
  iterate tolerance sense allowed phase limit (limit - r.iterations) g r

/-- The first column that is not artificial and has an entry in the row. -/
def replacement (tolerance : α) (g : Table α) (row : ℕ) : Except Fault (Option ℕ) :=
  (List.range g.columns.length).findM? fun j => do
    if ← g.isArtificial j then .ok false
    else
      let x ← g.entry row j
      .ok (decide (tolerance < Scalar.abs x))

/-- Replaces the artificial that is basic in a row, if there is one and it can be. -/
def driveOutRow (tolerance : α) (state : Table α × Record α) (row : ℕ) :
    Except Fault (Table α × Record α) := do
  let (g, r) := state
  let basic ← read g.basics row
  if ← g.isArtificial basic then
    let artificial ← g.columnName basic
    match ← g.replacement tolerance row with
    | none => .ok (g, r.note (.artificialDrivenOut row artificial none))
    | some col =>
      let element ← g.entry row col
      let after ← g.pivot tolerance row col
      let name ← after.columnName col
      let snapshot ← after.snapshot (some 1) r.iterations
        (name ++ " replaces " ++ artificial ++ " in the basis")
      let kept := r.keep { snapshot with
        enteringColumn := some col
        leavingRow := some row
        pivotElement := some element }
      .ok (after, kept.note (.artificialDrivenOut row artificial (some name)))
  else .ok (g, r)

def driveOut (tolerance : α) (g : Table α) (r : Record α) : Except Fault (Table α × Record α) := do
  (List.range (← g.rowCount)).foldlM (driveOutRow tolerance) (g, r)

end Table

end Checked

namespace Goal

variable {goal : Goal ℚ} {t : Tableau ℚ}

/-- An entering column and the leaving row are those of an entry that is not zero. -/
theorem IsStep.isShaped {d : Pivot ℚ} (hd : goal.IsStep d) (h0 : 0 ≤ goal.tolerance)
    (h : d.before.IsShaped) : d.after.IsShaped := by
  obtain ⟨r, hr, -⟩ := hd.leaving_row h0
  rw [hd.after_eq]
  exact h.pivot hr (Tableau.enteringColumn_some h0 hd.entering).1

theorem run_isShaped (h0 : 0 ≤ goal.tolerance) (h : t.IsShaped) (budget : ℕ) :
    (goal.run budget t).final.IsShaped :=
  run_invariant _ h fun d hd => (isStep_of_mem_run d hd).isShaped h0

end Goal

theorem Leg.isShaped_stage {leg : Leg ℚ} (h0 : 0 ≤ leg.goal.tolerance) (h : leg.loaded.IsShaped)
    (hc : leg.costs.length = leg.loaded.columnCount) : leg.stage.final.IsShaped :=
  Goal.run_isShaped h0 (h.setObjective hc) leg.budget

namespace Tableau

theorem IsShaped.driveOut {t : Tableau ℚ} {tolerance : ℚ} (h : t.IsShaped) (rows : List ℕ) :
    (DriveOut.final t (t.driveOut tolerance rows)).IsShaped := by
  refine (driveOut_invariant IsShaped h fun d hd hbefore => ?_).2
  obtain ⟨⟨r, hr, -, hfound⟩, hafter⟩ := isStep_of_mem_driveOut d hd
  rw [hafter]
  cases hcol : d.column with
  | none => exact hbefore
  | some col =>
    have hlt : col < d.before.columnCount :=
      List.mem_range.mp (List.mem_of_find?_eq_some (hfound.trans hcol))
    exact hbefore.pivot hr hlt

end Tableau

namespace Checked

namespace Table

variable {t : Tableau ℚ} {r : BasicRow ℚ} {row col : ℕ} {tolerance : ℚ} {record : Record ℚ}

section Shaped

variable (h : t.IsShaped)

include h

theorem openStage_eq_ok (phase : Option ℕ) (description : String) (record : Record ℚ) :
    t.table.openStage phase description record = .ok (record.openStage phase description t) := by
  rw [openStage, snapshot_eq_ok h, ok_bind, Record.openStage]

theorem choose_none_eq_ok (hcol : col < t.columnCount) (ratios : List (Option ℚ)) :
    t.table.choose col ratios none record = .ok (record.choose t col ratios none none) := by
  rw [choose, columnName_eq_ok hcol, ok_bind, reducedCost_eq_ok h hcol, ok_bind]
  rfl

theorem choose_some_eq_ok (hcol : col < t.columnCount) (hr : t.rows[row]? = some r)
    (ratios : List (Option ℚ)) : t.table.choose col ratios (some row) record =
      .ok (record.choose t col ratios (some row) (some (t.basicName r))) := by
  rw [choose, columnName_eq_ok hcol, ok_bind, reducedCost_eq_ok h hcol, ok_bind, Option.mapM_some,
    basicName_eq_ok h hr]
  rfl

theorem exchange_eq_ok (hcol : col < t.columnCount) (hr : t.rows[row]? = some r)
    (hne : r.entry col ≠ 0) (phase : Option ℕ) (ratios : List (Option ℚ)) (record : Record ℚ) :
    t.table.exchange tolerance phase col ratios row (quiet record) =
      .ok ((t.pivot tolerance row col).table, quiet
        (record.addPivot phase ⟨t, col, ratios, row, t.pivot tolerance row col⟩)) := by
  have hafter : (t.pivot tolerance row col).IsShaped := h.pivot hr hcol
  have hleaving : Pivot.leaving ⟨t, col, ratios, row, t.pivot tolerance row col⟩ =
      t.basicName r := by
    simp [Pivot.leaving, hr]
  have helement : Pivot.element ⟨t, col, ratios, row, t.pivot tolerance row col⟩ =
      r.entry col := by
    simp [Pivot.element, hr]
  rw [exchange, choose_some_eq_ok h hcol hr, ok_bind, columnName_eq_ok hcol, ok_bind,
    basicName_eq_ok h hr, ok_bind, entry_eq_ok h hr hcol, ok_bind, objectiveValue_eq_ok h, ok_bind,
    pivot_eq_ok h hr hcol hne, ok_bind, snapshot_eq_ok hafter, ok_bind,
    objectiveValue_eq_ok hafter, ok_bind]
  simp only [Record.addPivot, Record.pivotSnapshot, hleaving, helement]
  rfl

end Shaped

/-- The loop goes through the pivots of the stage that its goal runs. -/
theorem iterate_eq_ok {goal : Goal ℚ} (h0 : 0 ≤ goal.tolerance) {allowed : ℕ → Except Fault Bool}
    {n : ℕ} (hall : ∀ j < n, allowed j = .ok (goal.allowed j)) (phase : Option ℕ) (limit budget : ℕ)
    (h : t.IsShaped) (hn : t.columnCount = n) (record : Record ℚ) :
    iterate goal.tolerance goal.sense allowed phase limit budget t.table (quiet record) =
      .ok ((goal.run budget t).ending, (goal.run budget t).final.table,
        quiet (record.addStage phase limit (goal.run budget t))) := by
  refine Goal.run_induction (motive := fun budget t stage => ∀ record, t.IsShaped →
    t.columnCount = n →
      iterate goal.tolerance goal.sense allowed phase limit budget t.table (quiet record) =
        .ok (stage.ending, stage.final.table, quiet (record.addStage phase limit stage)))
    ?_ ?_ ?_ ?_ budget t record h hn
  · intro budget t hnone record h hn
    have hcol : t.table.enteringColumn goal.tolerance goal.sense allowed = .ok none :=
      (enteringColumn_eq_ok h (hn ▸ hall)).trans (congrArg _ hnone)
    cases budget <;> rw [iterate, hcol, ok_bind] <;> rfl
  · intro t col hsome record h hn
    have hcol : t.table.enteringColumn goal.tolerance goal.sense allowed = .ok (some col) :=
      (enteringColumn_eq_ok h (hn ▸ hall)).trans (congrArg _ hsome)
    rw [iterate, hcol, ok_bind]
    rfl
  · intro budget t col hsome hrow record h hn
    have hcol : t.table.enteringColumn goal.tolerance goal.sense allowed = .ok (some col) :=
      (enteringColumn_eq_ok h (hn ▸ hall)).trans (congrArg _ hsome)
    have hlt : col < t.columnCount := (Tableau.enteringColumn_some h0 hsome).1
    rw [iterate, hcol, ok_bind]
    simp only [ratios_eq_ok h h0 hlt, ok_bind, hrow, choose_none_eq_ok h hlt, columnName_eq_ok hlt]
    rfl
  · rintro budget ⟨before, col, ratios, row, after⟩ hd ih record h hn
    obtain rfl : ratios = before.ratios goal.tolerance col := hd.ratios_eq
    obtain rfl : after = before.pivot goal.tolerance row col := hd.after_eq
    have hcol : before.table.enteringColumn goal.tolerance goal.sense allowed = .ok (some col) :=
      (enteringColumn_eq_ok h (hn ▸ hall)).trans (congrArg _ hd.entering)
    have hlt : col < before.columnCount := (Tableau.enteringColumn_some h0 hd.entering).1
    have hrow : Tableau.leavingRow goal.tolerance (before.ratios goal.tolerance col) = some row :=
      hd.leaving
    obtain ⟨r, hr, hpos⟩ := hd.leaving_row h0
    rw [iterate, hcol, ok_bind]
    simp only [ratios_eq_ok h h0 hlt, ok_bind, hrow, exchange_eq_ok h hlt hr hpos.ne']
    exact ih _ (h.pivot hr hlt) ((Tableau.columnCount_pivot ..).trans hn)

theorem stage_eq_ok (leg : Leg ℚ) (h0 : 0 ≤ leg.goal.tolerance) (h : leg.loaded.IsShaped)
    (hc : leg.costs.length = leg.loaded.columnCount) {allowed : ℕ → Except Fault Bool}
    (hall : ∀ j < leg.loaded.columnCount, allowed j = .ok (leg.goal.allowed j))
    (phase : Option ℕ) (description : String) (limit : ℕ) (record : Record ℚ)
    (hbudget : leg.budget = limit - record.iterations) :
    stage leg.goal.tolerance leg.goal.sense allowed phase description limit leg.costs
        leg.loaded.table (quiet record) =
      .ok (leg.stage.ending, leg.stage.final.table,
        quiet ((record.openStage phase description leg.start).addStage phase limit leg.stage)) := by
  have hstart : leg.start.IsShaped := h.setObjective hc
  rw [stage, setObjective_eq_ok h hc, ok_bind]
  refine (bind_of_eq (openStage_eq_ok hstart phase description _) _).trans ?_
  rw [Leg.stage, hbudget]
  exact iterate_eq_ok h0 hall phase limit _ hstart rfl
    (record.openStage phase description leg.start)

section Drive

variable (h : t.IsShaped)

include h

theorem replacement_eq_ok (hr : t.rows[row]? = some r) :
    t.table.replacement tolerance row = .ok (t.replacement? tolerance r) := by
  refine findM?_eq_ok fun j hj => ?_
  have hlt : j < t.columnCount := List.mem_range.mp hj
  rw [isArtificial_eq_ok hlt, ok_bind, entry_eq_ok h hr hlt, ok_bind]
  cases t.isArtificial j <;> rfl

theorem driveOutRow_of_not_artificial (hr : t.rows[row]? = some r)
    (hart : t.isArtificial r.basic = false) :
    driveOutRow tolerance (t.table, quiet record) row = .ok (t.table, quiet record) := by
  rw [driveOutRow]
  simp only [read_basics_eq_ok hr, ok_bind, isArtificial_eq_ok (basic_lt h hr), hart,
    Bool.false_eq_true, if_false]

theorem driveOutRow_of_none (hr : t.rows[row]? = some r) (hart : t.isArtificial r.basic = true)
    (hnone : t.replacement? tolerance r = none) :
    driveOutRow tolerance (t.table, quiet record) row =
      .ok (t.table, quiet (record.addDriveOut ⟨row, t, none, t⟩)) := by
  rw [driveOutRow]
  simp only [read_basics_eq_ok hr, ok_bind, isArtificial_eq_ok (basic_lt h hr), hart, if_true,
    columnName_eq_ok (basic_lt h hr), replacement_eq_ok h hr, hnone]
  simp only [Record.addDriveOut, DriveOut.artificial, hr]
  rfl

theorem driveOutRow_of_some (h0 : 0 ≤ tolerance) (hr : t.rows[row]? = some r)
    (hart : t.isArtificial r.basic = true) (hsome : t.replacement? tolerance r = some col) :
    driveOutRow tolerance (t.table, quiet record) row =
      .ok ((t.pivot tolerance row col).table,
        quiet (record.addDriveOut ⟨row, t, some col, t.pivot tolerance row col⟩)) := by
  have hcol : col < t.columnCount := List.mem_range.mp (List.mem_of_find?_eq_some hsome)
  have hne : r.entry col ≠ 0 :=
    abs_pos.mp (h0.trans_lt (Tableau.replacement?_some hsome).2)
  have hafter : (t.pivot tolerance row col).IsShaped := h.pivot hr hcol
  rw [driveOutRow]
  simp only [read_basics_eq_ok hr, ok_bind, isArtificial_eq_ok (basic_lt h hr), hart, if_true,
    columnName_eq_ok (basic_lt h hr), replacement_eq_ok h hr, hsome, entry_eq_ok h hr hcol,
    pivot_eq_ok h hr hcol hne,
    columnName_eq_ok ((Tableau.columnCount_pivot tolerance t row col).symm ▸ hcol),
    snapshot_eq_ok hafter]
  simp only [Record.addDriveOut, DriveOut.snapshot, DriveOut.artificial, DriveOut.element, hr]
  rfl

omit h in
/-- The rows are gone through as in a pass over the tableau. -/
theorem foldlM_driveOutRow_eq_ok (h0 : 0 ≤ tolerance) (h : t.IsShaped) {rows : List ℕ}
    (hrows : ∀ row ∈ rows, row < t.rows.length) (record : Record ℚ) :
    rows.foldlM (driveOutRow tolerance) (t.table, quiet record) =
      .ok ((DriveOut.final t (t.driveOut tolerance rows)).table,
        quiet ((t.driveOut tolerance rows).foldl Record.addDriveOut record)) := by
  refine Tableau.driveOut_induction tolerance (motive := fun t rows pass => ∀ record,
    t.IsShaped → (∀ row ∈ rows, row < t.rows.length) →
      rows.foldlM (driveOutRow tolerance) (t.table, quiet record) =
        .ok ((DriveOut.final t pass).table, quiet (pass.foldl Record.addDriveOut record)))
    ?_ ?_ ?_ ?_ t rows record h hrows
  · intro t record _ _
    rfl
  · intro t row rest pass hskip ih record h hrows
    obtain ⟨hrow, hrest⟩ := List.forall_mem_cons.mp hrows
    obtain ⟨r, hr⟩ := exists_row hrow
    rw [List.foldlM_cons, driveOutRow_of_not_artificial h hr (hskip r hr), ok_bind]
    exact ih record h hrest
  · intro t row rest pass r hr hart hnone ih record h hrows
    rw [List.foldlM_cons, driveOutRow_of_none h hr hart hnone, ok_bind, DriveOut.final_cons]
    exact ih _ h (List.forall_mem_cons.mp hrows).2
  · intro t row rest pass r col hr hart hsome ih record h hrows
    have hcol : col < t.columnCount := List.mem_range.mp (List.mem_of_find?_eq_some hsome)
    rw [List.foldlM_cons, driveOutRow_of_some h h0 hr hart hsome, ok_bind, DriveOut.final_cons]
    refine ih _ (h.pivot hr hcol) fun row hrow => ?_
    rw [Tableau.length_rows_pivot]
    exact (List.forall_mem_cons.mp hrows).2 row hrow

theorem driveOut_eq_ok (h0 : 0 ≤ tolerance) (record : Record ℚ) :
    t.table.driveOut tolerance (quiet record) =
      .ok ((DriveOut.final t (t.driveOut tolerance (List.range t.rows.length))).table,
        quiet ((t.driveOut tolerance (List.range t.rows.length)).foldl
          Record.addDriveOut record)) := by
  rw [driveOut, rowCount_eq_ok, ok_bind]
  exact foldlM_driveOutRow_eq_ok h0 h (fun _ => List.mem_range.mp) record

end Drive

end Table

end Checked

end LinearProgram
