import LinearProgram.Proofs.ZeroTolerance
import LinearProgram.Proofs.Recording

/-! # Recorded tableaus state the problem

Without a tolerance every recorded tableau has the solutions of the standard form, and its objective
row tells what they cost in its phase. Feasibility of the basic solution is not needed for this, so
it holds after pivots on negative entries as well.
-/

namespace LinearProgram

namespace Tableau

/-- A tableau in solved form with the columns and the solutions of the standard form. -/
structure IsSystemOf (p : Problem ℚ) (t : Tableau ℚ) : Prop where
  columns_eq : t.columns = p.standardColumns
  solved : t.IsSolved
  solves_iff : ∀ {z}, t.Solves z ↔ p.standardForm.Solves z

/-- The objective row of such a tableau prices these costs. -/
structure States (p : Problem ℚ) (costs : List ℚ) (t : Tableau ℚ) : Prop extends
    t.IsSystemOf p where
  prices : t.Prices costs

variable {p : Problem ℚ} {t : Tableau ℚ} {costs : List ℚ} {row col : ℕ} {r : BasicRow ℚ}

theorem IsSystemOf.setObjective (h : t.IsSystemOf p) (hc : costs.length = t.columnCount) :
    (t.setObjective 0 costs).States p costs :=
  ⟨⟨h.columns_eq, ⟨h.solved.width, h.solved.unit⟩, h.solves_iff⟩,
    prices_setObjective h.solved hc⟩

theorem States.pivot (h : t.States p costs) (hr : t.rows[row]? = some r) (hne : r.entry col ≠ 0) :
    (t.pivot 0 row col).States p costs :=
  ⟨⟨(columns_pivot ..).trans h.columns_eq, h.solved.pivot hr hne,
    (solves_pivot h.solved hr hne).trans h.solves_iff⟩, h.prices.pivot h.solved hr hne⟩

/-- All rows, the objective row among them, have one number per column and a solution entry. -/
theorem States.length_of_mem_grid (h : t.States p costs) {values : List ℚ}
    (hmem : values ∈ t.grid) : values.length = p.standardForm.columnCount + 1 := by
  have hcolumns : t.columnCount = p.standardForm.columnCount := congrArg List.length h.columns_eq
  have hrect : t.IsRectangular := ⟨h.solved.width, h.prices.width⟩
  rw [hrect.length_of_mem_grid hmem, hcolumns]

/-- Artificials are driven out at any level and by entries of either sign. -/
theorem States.after_of_isStep {d : DriveOut ℚ} (h : d.before.States p costs) (hd : d.IsStep 0) :
    d.after.States p costs := by
  obtain ⟨r, hr, -, hcol⟩ := hd.artificial
  rw [hd.after_eq]
  cases hsome : d.column with
  | none => exact h
  | some col =>
    rw [hsome] at hcol
    exact h.pivot hr (abs_pos.mp (replacement?_some hcol).2)

theorem States.driveOut (h : t.States p costs) (rows : List ℕ) :
    (∀ d ∈ t.driveOut 0 rows, d.before.States p costs ∧ d.after.States p costs) ∧
      (DriveOut.final t (t.driveOut 0 rows)).States p costs := by
  have hstep : ∀ d ∈ t.driveOut 0 rows, d.before.States p costs → d.after.States p costs :=
    fun d hd hbefore => hbefore.after_of_isStep (isStep_of_mem_driveOut d hd)
  obtain ⟨hbefore, hfinal⟩ := driveOut_invariant _ h hstep
  exact ⟨fun d hd => ⟨hbefore d hd, hstep d hd (hbefore d hd)⟩, hfinal⟩

end Tableau

/-- Every tableau of a stage states the system that the stage is loaded with. -/
theorem Leg.states (leg : Leg ℚ) {p : Problem ℚ} (h0 : leg.goal.tolerance = 0)
    (h : leg.loaded.IsSystemOf p) (hc : leg.costs.length = leg.loaded.columnCount) :
    leg.stage.final.States p leg.costs ∧
      ∀ phase, ∀ f ∈ leg.frames phase, f.phase = phase ∧ f.tableau.States p leg.costs := by
  have hstart : leg.start.States p leg.costs := by
    rw [start, h0]
    exact h.setObjective hc
  have hstep : ∀ d ∈ leg.stage.pivots, d.before.States p leg.costs →
      d.after.States p leg.costs := by
    intro d hd hinv
    have hpivot := Goal.isStep_of_mem_run d hd
    obtain ⟨r, hr, hpos⟩ := hpivot.leaving_row h0.ge
    rw [hpivot.after_eq, h0]
    exact hinv.pivot hr hpos.ne'
  refine ⟨Goal.run_invariant _ hstart hstep, fun phase f hf => ?_⟩
  rcases List.mem_cons.mp hf with rfl | hf
  · exact ⟨rfl, hstart⟩
  · obtain ⟨d, hd, rfl⟩ := List.mem_map.mp hf
    exact ⟨rfl, Goal.run_invariant_after _ hstart hstep d hd⟩

/-- An exact stage that ends optimal with artificials at zero reports its last objective value. -/
theorem Leg.Optimizes.optimalValue_outcome {leg : Leg ℚ} {p : Problem ℚ} (ho : leg.Optimizes p)
    (h0 : 0 ≤ leg.goal.tolerance) (he : leg.IsExact)
    (hlevel : leg.stage.final.ArtificialsAtMost 0) (h : (leg.outcome p).status = .optimal) :
    (leg.outcome p).optimalValue = some leg.stage.final.objectiveValue := by
  obtain ⟨hform, penalty, hprices⟩ := ho.final h0 he
  rw [outcome, (outcome_of_optimal h).1, ← hprices.combine_basicPoint hform.solved,
    p.combine_costs_objective ho.loaded.columns_eq penalty
      fun _ => hform.basicPoint_artificial hlevel,
    ← hform.assignment_eq]
  rfl

namespace Snapshot

/-- Each constraint row ends in its solution entry. -/
def constraintRows (snapshot : Snapshot ℚ) : List (List ℚ) := snapshot.grid.dropLast

def objectiveRow (snapshot : Snapshot ℚ) : List ℚ := snapshot.grid.getLastD []

/-- The values of the columns satisfy all constraint rows. -/
def Solves (snapshot : Snapshot ℚ) (z : ℕ → ℚ) : Prop :=
  ∀ row ∈ snapshot.constraintRows, combine row.dropLast z = row.getLastD 0

variable {snapshot : Snapshot ℚ} {f : Frame ℚ} {z : ℕ → ℚ}

theorem phase_of_view (h : snapshot.view = f.view) : snapshot.phase = f.phase :=
  congrArg Prod.fst h

theorem grid_of_view (h : snapshot.view = f.view) : snapshot.grid = f.tableau.grid := by
  have hgrid := congrArg Prod.snd h
  simpa [view, Frame.view, funext Scalar.unsignedZero_eq] using hgrid

theorem constraintRows_of_view (h : snapshot.view = f.view) :
    snapshot.constraintRows = f.tableau.rows.map (·.values) := by
  rw [constraintRows, grid_of_view h, Tableau.grid, List.dropLast_concat]

theorem objectiveRow_of_view (h : snapshot.view = f.view) :
    snapshot.objectiveRow = f.tableau.objective.values := by
  rw [objectiveRow, grid_of_view h, Tableau.grid, List.getLastD_concat]

theorem solves_of_view (h : snapshot.view = f.view) :
    snapshot.Solves z ↔ f.tableau.Solves z := by
  rw [Solves, constraintRows_of_view h, List.forall_mem_map]
  simp only [Row.dropLast_values, Row.getLastD_values]
  rfl

end Snapshot

namespace SimplexSettings

/-- What a solution of the standard form costs in a phase: the objective with penalties for
artificial parts, the sum of the artificial parts, or the objective. -/
def stageCost (s : SimplexSettings ℚ) (p : Problem ℚ) : Option ℕ → (ℕ → ℚ) → ℚ
  | none, z => combine p.objective.coefficients z -
      p.objective.sense.sign * s.penalty p * p.artificialSum z
  | some 1, z => p.artificialSum z
  | some _, z => combine p.objective.coefficients z

/-- The tableau states the problem with the costs of its phase. -/
def Records (s : SimplexSettings ℚ) (p : Problem ℚ) (f : Frame ℚ) : Prop :=
  ∃ costs, f.tableau.States p costs ∧ ∀ z, combine costs z = s.stageCost p f.phase z

variable {s : SimplexSettings ℚ} {p : Problem ℚ} {t : Tableau ℚ} {used : ℕ}

theorem combine_phaseTwo_costs (ht : t.columns = p.standardColumns) (z : ℕ → ℚ) :
    combine (s.phaseTwoLeg p t used).costs z = s.stageCost p (some 2) z := by
  rw [phaseTwoLeg, Problem.combine_costs ht rfl, zero_mul, add_zero]
  rfl

theorem combine_penalty_costs (z : ℕ → ℚ) :
    combine (s.penaltyLeg p).costs z = s.stageCost p none z := by
  rw [penaltyLeg, Problem.combine_costs rfl rfl, stageCost]
  cases p.objective.sense with
  | maximize =>
    simp only [Sense.sign]
    ring
  | minimize =>
    simp only [Sense.sign]
    ring

/-- The tableaus of a stage state the problem if the stage is loaded with the costs of the phase. -/
theorem records_leg {leg : Leg ℚ} {phase : Option ℕ} (h0 : leg.goal.tolerance = 0)
    (h : leg.loaded.IsSystemOf p) (hc : leg.costs.length = leg.loaded.columnCount)
    (hcosts : ∀ z, combine leg.costs z = s.stageCost p phase z) :
    ∀ f ∈ leg.frames phase, s.Records p f := by
  intro f hf
  obtain ⟨rfl, hstates⟩ := (leg.states h0 h hc).2 phase f hf
  exact ⟨_, hstates, hcosts⟩

section

variable (hl : ∀ c ∈ p.constraints, c.coefficients.length = p.variableCount)
  (h0 : s.tolerance = 0)

include h0

theorem records_phaseTwoLeg (h : t.IsSystemOf p) :
    ∀ f ∈ (s.phaseTwoLeg p t used).frames (some 2), s.Records p f :=
  records_leg h0 h (Problem.length_costs ..) (combine_phaseTwo_costs h.columns_eq)

include hl

omit h0 in
theorem isSystemOf_standardForm : p.standardForm.IsSystemOf p :=
  ⟨rfl, p.isSolved_standardForm hl, Iff.rfl⟩

theorem records_penaltyLeg : ∀ f ∈ (s.penaltyLeg p).frames none, s.Records p f :=
  records_leg h0 (isSystemOf_standardForm hl) (Problem.length_costs ..) combine_penalty_costs

theorem records_bothPhases : ∀ f ∈ s.bothPhasesFrames p used, s.Records p f := by
  have hform := isSystemOf_standardForm hl
  have hcosts := combine_phaseOne_costs s p used
  intro f hf
  rcases List.mem_append.mp hf with hf | hf
  · exact records_leg h0 hform (Problem.length_costs ..) hcosts f hf
  · obtain ⟨hfinal, -⟩ := (s.phaseOneLeg p used).states h0 hform (Problem.length_costs ..)
    obtain ⟨hpass, hbasis⟩ :=
      hfinal.driveOut (List.range (s.phaseOneLeg p used).stage.final.rows.length)
    rw [← h0] at hpass hbasis
    cases hstatus : s.phaseOneStatus p used with
    | some status => simp [hstatus] at hf
    | none =>
      simp only [hstatus] at hf
      rcases List.mem_append.mp hf with hf | hf
      · obtain ⟨d, hd, rfl⟩ := List.mem_map.mp hf
        exact ⟨_, (hpass d (List.mem_of_mem_filter hd)).2, hcosts⟩
      · exact records_phaseTwoLeg h0 hbasis.toIsSystemOf f hf

/-- Every tableau of a solve states the problem with the costs of its phase. -/
theorem records_frames : ∀ f ∈ s.frames p, s.Records p f := by
  intro f hf
  rw [frames] at hf
  cases hfrom : s.bothPhasesFrom? p with
  | some used =>
    simp only [hfrom] at hf
    rcases List.mem_append.mp hf with hf | hf
    · rw [recheckedFrames] at hf
      cases hd : s.discipline with
      | bigM =>
        simp only [hd] at hf
        exact records_penaltyLeg hl h0 f hf
      | twoPhase => simp [hd] at hf
    · exact records_bothPhases hl h0 f hf
  | none =>
    simp only [hfrom, directLeg, directPhase] at hf
    cases hd : s.discipline with
    | bigM =>
      simp only [hd] at hf
      exact records_penaltyLeg hl h0 f hf
    | twoPhase =>
      simp only [hd] at hf
      exact records_phaseTwoLeg h0 (isSystemOf_standardForm hl) f hf

/-- An optimal solve ends at a tableau whose objective value is the one that it reports. -/
theorem exists_frame_of_optimal (hopt : (s.outcome p).status = .optimal) :
    ∃ f, (s.frames p).getLast? = some f ∧
      (s.outcome p).optimalValue = some f.tableau.objectiveValue := by
  obtain ⟨ho, htolerance, hlevel, -⟩ := optimizes_lastLeg hl h0 hopt
  have hlast := outcome_lastLeg hopt
  refine ⟨_, s.getLast?_frames p, ?_⟩
  rw [← hlast] at hopt ⊢
  exact ho.optimalValue_outcome htolerance.ge (Leg.isExact_of_tolerance_eq_zero htolerance) hlevel
    hopt

end

/-- Every snapshot of a solve has the solutions of the standard form as solutions of its constraint
rows, and what such a solution costs in the phase of the snapshot adds up with the objective row to
the last number of that row. On an optimum the last snapshot ends in the optimal value. -/
theorem solve_records_problem (h0 : s.tolerance = 0) (hv : p.validate = .ok ()) :
    ∃ solution, s.solve p = .ok solution ∧
      (∀ snapshot ∈ solution.tableaus,
        (∀ row ∈ snapshot.grid, row.length = p.standardForm.columnCount + 1) ∧
        (∀ z, snapshot.Solves z ↔ p.standardForm.Solves z) ∧
        ∀ z, p.standardForm.Solves z → s.stageCost p snapshot.phase z +
          combine snapshot.objectiveRow.dropLast z = snapshot.objectiveRow.getLastD 0) ∧
      (solution.status = .optimal → ∃ snapshot, solution.tableaus.getLast? = some snapshot ∧
        solution.optimalValue = some (snapshot.objectiveRow.getLastD 0)) := by
  have hl := p.length_of_validate hv
  refine ⟨_, solve_of_validate hv, fun snapshot hsnapshot => ?_, fun hopt => ?_⟩
  · obtain ⟨f, hf, hview⟩ := exists_frame_of_mem hsnapshot
    obtain ⟨costs, hstates, hcosts⟩ := records_frames hl h0 f hf
    rw [Snapshot.grid_of_view hview, Snapshot.objectiveRow_of_view hview,
      Row.dropLast_values, Row.getLastD_values, Snapshot.phase_of_view hview]
    refine ⟨fun row hrow => hstates.length_of_mem_grid hrow,
      fun z => (Snapshot.solves_of_view hview).trans hstates.solves_iff, fun z hz => ?_⟩
    rw [← hcosts]
    exact hstates.prices.total z (hstates.solves_iff.mpr hz)
  · rw [status_run] at hopt
    obtain ⟨f, hlast, hvalue⟩ := exists_frame_of_optimal hl h0 hopt
    obtain ⟨snapshot, hsnapshot, hview⟩ := exists_getLast?_tableaus hlast
    refine ⟨snapshot, hsnapshot, ?_⟩
    rw [Snapshot.objectiveRow_of_view hview, Row.getLastD_values, optimalValue_run]
    exact hvalue

/-- Two equations that meet at a corner. A penalty of the wrong sign is rechecked, and an artificial
is driven out by a negative entry. -/
def crossingProblem : Problem ℚ :=
  ⟨⟨[1, 2], .maximize⟩, [⟨[1, 1], .eq, 2⟩, ⟨[1, -1], .eq, 2⟩]⟩

theorem solve_records_crossingProblem : crossingProblem.validate = .ok () ∧
    ∃ solution, (⟨none, 0, .bigM, -1⟩ : SimplexSettings ℚ).solve crossingProblem = .ok solution ∧
      solution.tableaus.map (·.phase) = [none, none, some 1, some 1, some 1, some 2] ∧
      (∀ snapshot ∈ solution.tableaus, ∀ z,
        snapshot.Solves z ↔ crossingProblem.standardForm.Solves z) ∧
      ∃ snapshot, solution.tableaus.getLast? = some snapshot ∧
        snapshot.objectiveRow.getLastD 0 = 2 := by
  have hv : crossingProblem.validate = .ok () := by decide +kernel
  obtain ⟨solution, hsolve, hall, hlast⟩ :=
    solve_records_problem (s := ⟨none, 0, .bigM, -1⟩) rfl hv
  obtain ⟨-, rfl⟩ := validate_of_solve hsolve
  obtain ⟨snapshot, hsnapshot, hvalue⟩ := hlast (by decide +kernel)
  refine ⟨hv, _, hsolve, by decide +kernel, fun snapshot h => (hall snapshot h).2.1, snapshot,
    hsnapshot, ?_⟩
  exact Option.some.inj (hvalue.symm.trans (by decide +kernel))

end SimplexSettings

end LinearProgram
