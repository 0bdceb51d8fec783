import LinearProgram.Proofs.Double.Signs
import LinearProgram.Proofs.RecordedBasis

/-! # The final tableau

A solve that ends with an optimum ends at a tableau that it shows: its last snapshot is of the
tableau at which the last stage found no column to enter. So no entry of the last objective row
improves the objective in a column that was allowed to enter, and the assignment can be read off
the last snapshot.
-/

namespace LinearProgram

/-- The sign of a zero does not decide a comparison, and one with a negation may be turned
around. -/
class Scalar.SignedOrder (α : Type) [Scalar α] : Prop where
  unsignedZero_lt (x y : α) : unsignedZero x < y ↔ x < y
  lt_unsignedZero (x y : α) : x < unsignedZero y ↔ x < y
  lt_neg (x y : α) : x < -y ↔ y < -x

instance : Scalar.SignedOrder ℚ where
  unsignedZero_lt x y := by rw [Scalar.unsignedZero_eq]
  lt_unsignedZero x y := by rw [Scalar.unsignedZero_eq]
  lt_neg x y := lt_neg

instance : Scalar.SignedOrder Float where
  unsignedZero_lt := Double.unsignedZero_lt_iff
  lt_unsignedZero := Double.lt_unsignedZero_iff
  lt_neg := Double.lt_neg_iff

variable {α : Type} [Scalar α]

/-- A column with this entry in the objective row improves the objective by more than the
tolerance. -/
def Sense.Improves (sense : Sense) (tolerance entry : α) : Prop :=
  match sense with
  | .maximize => entry < -tolerance
  | .minimize => tolerance < entry

instance (sense : Sense) (tolerance entry : α) : Decidable (sense.Improves tolerance entry) :=
  match sense with
  | .maximize => inferInstanceAs (Decidable (entry < -tolerance))
  | .minimize => inferInstanceAs (Decidable (tolerance < entry))

theorem Tableau.improves_iff [Scalar.SignedOrder α] (sense : Sense) (tolerance : α)
    (t : Tableau α) (col : ℕ) : sense.Improves tolerance (Scalar.unsignedZero (t.reducedCost col)) ↔
      tolerance < t.gain sense col := by
  cases sense with
  | maximize =>
    exact (Scalar.SignedOrder.unsignedZero_lt ..).trans (Scalar.SignedOrder.lt_neg ..)
  | minimize => exact Scalar.SignedOrder.lt_unsignedZero ..

section Reading

/-- What a snapshot says of a variable: the number at the end of the last row in which it is basic,
zero if there is none. -/
def Snapshot.reading (snapshot : Snapshot α) (name : String) : α :=
  match (snapshot.basicVariables.zip snapshot.grid).reverse.find? (·.1 == name) with
  | some (_, row) => row.getLastD 0
  | none => 0

variable {snapshot : Snapshot α} {t : Tableau α} {p : Problem α} {col : ℕ}

theorem Snapshot.Shows.reading_eq (h : snapshot.Shows t) (name : String) :
    snapshot.reading name = match t.rows.reverse.find? fun r => t.basicName r == name with
      | some r => Scalar.unsignedZero r.solution
      | none => 0 := by
  have hzip : snapshot.basicVariables.zip snapshot.grid =
      t.rows.map fun r => (t.basicName r, r.values.map Scalar.unsignedZero) := by
    rw [h.basic_eq, h.grid_eq, Tableau.basicVariables, Tableau.grid, List.map_append,
      ← List.append_nil (t.rows.map t.basicName), List.zip_append (by simp), List.map_map,
      List.zip_map']
    simp
  rw [reading, hzip, ← List.map_reverse, List.find?_map, Function.comp_def]
  cases t.rows.reverse.find? fun r => t.basicName r == name with
  | none => rfl
  | some r => simp [Row.values]

theorem Snapshot.Shows.getLast?_grid (h : snapshot.Shows t) :
    snapshot.grid.getLast? = some (t.objective.values.map Scalar.unsignedZero) := by
  rw [h.grid_eq, Tableau.grid, List.map_append, List.map_singleton, List.getLast?_concat]

theorem ne_empty_of_mem_numberedNames {base name : String} (hbase : base ≠ "") {n : ℕ}
    (h : name ∈ numberedNames base n) : name ≠ "" := by
  obtain ⟨i, -, rfl⟩ := List.mem_map.mp h
  simp [hbase]

/-- A position without a column does not share its name, the empty one, with a column. -/
theorem Tableau.columnName_eq_iff (ht : t.columns = p.standardColumns) (hcol : col < t.columnCount)
    (i : ℕ) : t.columnName i = t.columnName col ↔ i = col := by
  refine ⟨fun h => ?_, fun h => h ▸ rfl⟩
  have hnames : t.columnNames = p.standardColumns.map (·.name) := congrArg _ ht
  have hcol : col < t.columnNames.length := by rwa [columnNames, List.length_map]
  have hne : ∀ name ∈ t.columnNames, name ≠ "" := by
    rw [hnames]
    simp only [Problem.standardColumns, List.map_append, map_name_numberedColumns, List.mem_append]
    rintro name (((h | h) | h) | h) <;> exact ne_empty_of_mem_numberedNames (by decide) h
  rw [columnName, columnName, List.getElem?_eq_getElem hcol, Option.getD_some] at h
  cases hi : t.columnNames[i]? with
  | none =>
    rw [hi, Option.getD_none] at h
    exact absurd h.symm (hne _ (List.getElem_mem hcol))
  | some name =>
    rw [hi, Option.getD_some] at h
    subst h
    have hnodup : t.columnNames.Nodup := hnames ▸ p.nodup_standardNames
    exact (List.getElem?_inj (List.getElem?_eq_some_iff.mp hi).1 hnodup).mp
      (hi.trans (List.getElem?_eq_getElem hcol).symm)

omit [Scalar α] in
theorem Tableau.take_columnNames {n : ℕ} (h : n ≤ t.columnCount) :
    t.columnNames.take n = (List.range n).map t.columnName := by
  have hlen : t.columnNames.length = t.columnCount := List.length_map _
  refine List.ext_getElem (by rw [List.length_take]; simp; omega) fun i hi hi' => ?_
  have hi : i < t.columnNames.length := by rw [List.length_take] at hi; omega
  rw [List.getElem_take, List.getElem_map, List.getElem_range, columnName,
    List.getElem?_eq_getElem hi, Option.getD_some]

/-- The values of the decision variables are what the snapshot says of the first columns. -/
theorem Snapshot.Shows.assignment_eq (h : snapshot.Shows t) (ht : t.columns = p.standardColumns) :
    t.assignment = (snapshot.columns.take p.variableCount).map snapshot.reading := by
  have hcount : p.variableCount ≤ t.columnCount := by
    rw [← Problem.count_decision ht]
    exact List.countP_le_length
  rw [h.columns_eq, Tableau.take_columnNames hcount, List.map_map, Tableau.assignment,
    Problem.count_decision ht]
  refine List.map_congr_left fun col hcol => ?_
  have hcol := (List.mem_range.mp hcol).trans_le hcount
  -- Rows are found by position in the tableau and by name in the snapshot.
  have hname : (fun r : BasicRow α => r.basic == col) =
      fun r => t.basicName r == t.columnName col := by
    funext r
    rw [Bool.eq_iff_iff, beq_iff_eq, beq_iff_eq]
    exact (Tableau.columnName_eq_iff ht hcol r.basic).symm
  have hreading := h.reading_eq (t.columnName col)
  rw [← hname] at hreading
  exact hreading.symm

end Reading

namespace SimplexSettings

variable {s : SimplexSettings α} {p : Problem α} {phase : Option ℕ} {leg : Leg α}

/-- The last stage is one that the solve runs. -/
theorem isLeg_lastLeg (s : SimplexSettings α) (p : Problem α) :
    s.IsLeg p (s.lastPhase p) (s.lastLeg p) := by
  rw [lastPhase]
  cases hfrom : s.bothPhasesFrom? p with
  | some used =>
    cases hstatus : s.phaseOneStatus p used with
    | some status =>
      rw [lastLeg_of_stopped hfrom hstatus]
      simpa [hstatus] using IsLeg.first hfrom
    | none =>
      rw [lastLeg_of_feasible hfrom hstatus]
      simpa [hstatus] using IsLeg.second hfrom hstatus
  | none =>
    rw [lastLeg_of_direct hfrom, directLeg, directPhase]
    cases hd : s.discipline with
    | bigM => exact .penalty hd
    | twoPhase => exact .direct hd hfrom

/-- No phase is recorded only for a penalty without a recheck. -/
theorem lastPhase_eq_none_iff :
    s.lastPhase p = none ↔ s.discipline = .bigM ∧ s.isRechecked p = false := by
  rw [lastPhase, bothPhasesFrom?, directPhase]
  cases s.discipline with
  | bigM => cases s.isRechecked p <;> simp
  | twoPhase =>
    by_cases h : 0 < p.standardForm.count .artificial <;> simp [h]

/-- Costs are loaded into a tableau with the columns of the standard form. -/
theorem IsLeg.columns_loaded (h : s.IsLeg p phase leg) :
    leg.loaded.columns = p.standardColumns := by
  cases h with
  | second => exact (Tableau.columns_driveOut ..).trans (Leg.columns_final _)
  | _ => rfl

theorem IsLeg.isRectangular_loaded (h : s.IsLeg p phase leg)
    (hl : ∀ c ∈ p.constraints, c.coefficients.length = p.variableCount) :
    leg.loaded.IsRectangular := by
  cases h with
  | second hused =>
    exact (Leg.isRectangular_final (p.isRectangular_standardForm hl)
      (IsLeg.first hused).length_costs).driveOut
  | _ => exact p.isRectangular_standardForm hl

/-- Behind the first phase a stage optimizes the objective, over all columns if no phase is recorded
and without the artificial ones otherwise. -/
theorem IsLeg.goal (h : s.IsLeg p phase leg) (hphase : phase ≠ some 1) :
    leg.goal.sense = p.objective.sense ∧
      ∀ col, phase = none ∨ p.standardForm.isArtificial col = false →
        leg.goal.allowed col = true := by
  have hcolumns := h.columns_loaded
  cases h with
  | penalty => exact ⟨rfl, fun _ _ => rfl⟩
  | first => exact absurd rfl hphase
  | second | direct =>
    refine ⟨rfl, fun col hcol => ?_⟩
    have hart := hcol.resolve_left (Option.some_ne_none 2)
    rw [← Tableau.isArtificial_congr hcolumns] at hart
    exact (Bool.not_eq_true' _).mpr hart

theorem lastPhase_ne_one_of_optimal (h : (s.outcome p).status = .optimal) :
    s.lastPhase p ≠ some 1 := by
  rw [lastPhase]
  cases hfrom : s.bothPhasesFrom? p with
  | some used =>
    simp only [outcome, hfrom] at h
    simp [phaseOneStatus_of_optimal h]
  | none =>
    rw [directPhase]
    cases s.discipline <;> simp

/-- The last snapshot shows the tableau at which the solve ends. -/
theorem exists_last_shows (s : SimplexSettings α) (p : Problem α) :
    ∃ last, (s.run p).solution.tableaus.getLast? = some last ∧ last.phase = s.lastPhase p ∧
      last.Shows (s.lastLeg p).stage.final := by
  -- The phase is known from what the solve goes through, the tableau from where it stands.
  obtain ⟨last, hlast, hview⟩ := exists_getLast?_tableaus (s.getLast?_frames p)
  obtain ⟨r, hr, hread⟩ := (keeps_showsLast s p).run (by rintro _ ⟨⟩)
  obtain ⟨last', hlast', hshows⟩ := hr _ rfl
  rw [hread.tableaus_eq] at hlast ⊢
  obtain rfl := Option.some.inj (hlast.symm.trans hlast')
  exact ⟨last, hlast, congrArg Prod.fst hview, hshows⟩

/-- On an optimum the last snapshot, which names no phase just for a penalty without a recheck,
admits no improving column: no entry of its objective row improves the objective by more than the
tolerance, artificial columns apart if it names a phase. The assignment is read off its basic
variables and its solution column. -/
theorem solve_last_snapshot [Scalar.SignedOrder α] (hv : p.validate = .ok ()) :
    ∃ solution, s.solve p = .ok solution ∧ (solution.status = .optimal →
      ∃ last row, solution.tableaus.getLast? = some last ∧ last.grid.getLast? = some row ∧
        last.columns = p.standardForm.columnNames ∧ row.length = last.columns.length + 1 ∧
        (last.phase = none ↔ s.discipline = .bigM ∧ s.isRechecked p = false) ∧
        (∀ col x, col < last.columns.length → row[col]? = some x →
          last.phase = none ∨ p.standardForm.isArtificial col = false →
            ¬ p.objective.sense.Improves s.tolerance x) ∧
        solution.assignment = (last.columns.take p.variableCount).map last.reading) := by
  have hl := p.length_of_validate hv
  refine ⟨_, solve_of_validate hv, fun hopt => ?_⟩
  rw [status_run] at hopt
  have hlastLeg := outcome_lastLeg hopt
  obtain ⟨hending, hassignment⟩ := Leg.outcome_of_optimal ((congrArg _ hlastLeg).trans hopt)
  obtain ⟨last, hlast, hphase, hshows⟩ := exists_last_shows s p
  have hleg := s.isLeg_lastLeg p
  obtain ⟨hsense, hallowed⟩ := hleg.goal (lastPhase_ne_one_of_optimal hopt)
  have hcolumns := (Leg.columns_final _).trans hleg.columns_loaded
  have hnames : last.columns = p.standardForm.columnNames :=
    hshows.columns_eq.trans (congrArg (List.map Column.name) hcolumns)
  have hlength : last.columns.length = (s.lastLeg p).stage.final.columnCount := by
    rw [hshows.columns_eq, Tableau.columnNames, List.length_map, Tableau.columnCount]
  have hwidth := (Leg.isRectangular_final (hleg.isRectangular_loaded hl)
    hleg.length_costs).objective_width
  refine ⟨last, _, hlast, hshows.getLast?_grid, hnames, ?_, ?_, fun col x hcol hx hart => ?_, ?_⟩
  · rw [List.length_map, Row.length_values, hwidth, hlength]
  · rw [hphase, lastPhase_eq_none_iff]
  · -- What is recorded is the entry that the scan has looked at, up to the sign of a zero.
    rw [hlength] at hcol
    rw [List.getElem?_map, Row.getElem?_values (hwidth.symm ▸ hcol), Option.map_some] at hx
    have hgain := Tableau.enteringColumn_eq_none_iff.mp (Goal.entering?_of_optimal hending) col hcol
      (hallowed col (hphase ▸ hart))
    rw [hsense, hleg.tolerance_eq, ← Tableau.improves_iff] at hgain
    rwa [← Option.some.inj hx]
  · rw [assignment_run, ← hlastLeg, hassignment, hshows.assignment_eq hcolumns]

/-- Two equations with artificials that would improve the objective once the first phase is over. -/
def barredProblem : Problem Float :=
  ⟨⟨[1, 2], .maximize⟩, [⟨[1, 1], .eq, 4⟩, ⟨[1, -1], .eq, 2⟩]⟩

/-- A penalty of the wrong sign, so that both phases follow. -/
def wrongPenalty : SimplexSettings Float := ⟨none, 1e-9, .bigM, -1⟩

/-- The last artificial column improves the objective but is barred, and the basic variables are not
in the order of the columns. -/
theorem solve_last_snapshot_barredProblem : barredProblem.validate = .ok () ∧
    ∃ solution, wrongPenalty.solve barredProblem = .ok solution ∧ solution.status = .optimal ∧
      ∃ last row, solution.tableaus.getLast? = some last ∧ last.grid.getLast? = some row ∧
        last.phase = some 2 ∧ last.basicVariables = ["x2", "x1"] ∧
        (∃ x, row[3]? = some x ∧ Sense.maximize.Improves 1e-9 x) ∧
        (∀ col < last.columns.length, barredProblem.standardForm.isArtificial col = false →
          ∀ x, row[col]? = some x → ¬ Sense.maximize.Improves 1e-9 x) ∧
        solution.assignment = [last.reading "x1", last.reading "x2"] := by
  have hv : barredProblem.validate = .ok () := by decide +kernel
  have hopt : (wrongPenalty.run barredProblem).solution.status = .optimal := by decide +kernel
  have hview : ((wrongPenalty.run barredProblem).solution.tableaus.getLast?.map
      fun a => (a.phase, a.basicVariables)) = some (some 2, ["x2", "x1"]) := by decide +kernel
  have hbarred : (((wrongPenalty.run barredProblem).solution.tableaus.getLast?.bind
      (·.grid.getLast?)).bind (·[3]?)).any (fun x => decide (Sense.maximize.Improves 1e-9 x)) =
        true := by decide +kernel
  have hnames : barredProblem.standardForm.columnNames.take barredProblem.variableCount =
      ["x1", "x2"] := by decide +kernel
  obtain ⟨solution, hsolve, hlast⟩ := solve_last_snapshot (s := wrongPenalty) hv
  obtain ⟨-, hsolution⟩ := validate_of_solve hsolve
  rw [← hsolution] at hopt hview hbarred
  obtain ⟨last, row, htableau, hrow, hcolumns, -, -, himproves, hassignment⟩ := hlast hopt
  rw [htableau, Option.map_some, Option.some.injEq, Prod.mk.injEq] at hview
  rw [htableau, Option.bind_some, hrow, Option.bind_some] at hbarred
  obtain ⟨x, hx, hdecide⟩ := (Option.any_eq_true _ _).mp hbarred
  refine ⟨hv, _, hsolve, hopt, last, row, htableau, hrow, hview.1, hview.2,
    ⟨x, hx, of_decide_eq_true hdecide⟩, fun col hcol hart x hx => ?_, ?_⟩
  · exact himproves col x hcol hx (Or.inr hart)
  · rw [hassignment, hcolumns, hnames]
    rfl

end SimplexSettings

end LinearProgram
