import LinearProgram.Proofs.RecordInvariant
import LinearProgram.Proofs.RecordedSystem

/-! # Feasible tableaus and improving pivots

Without a tolerance every tableau that a solve records has a feasible basic solution. A pivot
changes the objective value by the gain of its column times the ratio of its row, so it never makes
the objective of its stage worse. Artificials are driven out of rows at zero, by entries of either
sign, and this leaves the whole solution column as it is.
-/

namespace LinearProgram

/-- What a stage optimizes: the first phase minimizes the sum of the artificials. -/
def Problem.stageSense {α : Type} (p : Problem α) : Option ℕ → Sense
  | some 1 => .minimize
  | _ => p.objective.sense

/-- Going from one objective value to another does not make it worse. -/
def Sense.Allows : Sense → ℚ → ℚ → Prop
  | maximize, before, after => before ≤ after
  | minimize, before, after => after ≤ before

theorem Sense.allows_iff (sense : Sense) (before after : ℚ) :
    sense.Allows before after ↔ sense.sign * before ≤ sense.sign * after := by
  cases sense <;> simp [Allows, sign]

namespace Tableau

variable {t : Tableau ℚ} {r : BasicRow ℚ} {row col : ℕ} {sense : Sense}

/-- The last entries of all rows, the objective row among them. -/
def solutions (t : Tableau ℚ) : List ℚ := t.rows.map (·.solution) ++ [t.objectiveValue]

theorem isFeasible_of_solutions_eq {u : Tableau ℚ} (h : t.IsFeasible)
    (heq : u.solutions = t.solutions) : u.IsFeasible := by
  obtain ⟨hrows, -⟩ := List.append_inj' heq rfl
  intro s hs
  have hmem : s.solution ∈ t.rows.map (·.solution) := hrows ▸ List.mem_map_of_mem hs
  obtain ⟨r, hr, hsol⟩ := List.mem_map.mp hmem
  rw [← hsol]
  exact h r hr

section Pivot

variable (h : t.IsSolved) (hw : t.objective.entries.length = t.columnCount)
  (hr : t.rows[row]? = some r)

include h hw hr

/-- A pivot adds to the objective what a unit of the column gains, times the new value of the
column. -/
theorem sign_mul_objectiveValue_pivot (hne : r.entry col ≠ 0) (sense : Sense) :
    sense.sign * (t.pivot 0 row col).objectiveValue =
      sense.sign * t.objectiveValue + t.gain sense col * (r.solution / r.entry col) := by
  rw [objectiveValue, objective_pivot h hw hr hne, Row.solution_subtract, Row.solution_scaleTo,
    gain_eq, reducedCost, objectiveValue]
  ring

theorem allows_objectiveValue_pivot (hpos : 0 < r.entry col) (hsol : 0 ≤ r.solution)
    (hgain : 0 < t.gain sense col) :
    sense.Allows t.objectiveValue (t.pivot 0 row col).objectiveValue := by
  rw [Sense.allows_iff, sign_mul_objectiveValue_pivot h hw hr hpos.ne']
  have hstep := mul_nonneg hgain.le (div_nonneg hsol hpos.le)
  linarith

/-- From a row at zero an exchange changes no solution entry. -/
theorem solutions_pivot_of_zero (hne : r.entry col ≠ 0) (hz : r.solution = 0) :
    (t.pivot 0 row col).solutions = t.solutions := by
  have hratio : (r.scaleTo col).solution = 0 := by rw [Row.solution_scaleTo, hz, zero_div]
  have hrows : (t.pivot 0 row col).rows.map (·.solution) = t.rows.map (·.solution) := by
    apply List.ext_getElem?
    intro i
    rw [List.getElem?_map, List.getElem?_map, getElem?_pivot h hr hne, Option.map_map]
    refine Option.map_congr fun s hs => ?_
    by_cases hi : i = row
    · subst hi
      obtain rfl : r = s := Option.some.inj (hr.symm.trans hs)
      simp only [Function.comp_apply, if_true]
      rw [hratio, hz]
    · simp only [Function.comp_apply, if_neg hi, Row.solution_subtract]
      rw [hratio, mul_zero, sub_zero]
  have hvalue : (t.pivot 0 row col).objectiveValue = t.objectiveValue := by
    rw [objectiveValue, objective_pivot h hw hr hne, Row.solution_subtract, hratio, mul_zero,
      sub_zero, objectiveValue]
  rw [solutions, solutions, hrows, hvalue]

end Pivot

end Tableau

/-- An exact exchange of an artificial leaves the solution column as it is. -/
theorem DriveOut.solutions_after {d : DriveOut ℚ} {p : Problem ℚ} {costs : List ℚ}
    (hd : d.IsStep 0) (hex : d.IsExact) (h : d.before.States p costs) :
    d.after.solutions = d.before.solutions := by
  obtain ⟨r, hr, -, hcol⟩ := hd.artificial
  rw [hd.after_eq]
  cases hsome : d.column with
  | none => rfl
  | some col =>
    rw [hsome] at hcol
    have hne : r.entry col ≠ 0 := abs_pos.mp (Tableau.replacement?_some hcol).2
    have hz : r.solution = 0 := hex.level r hr (by rw [hsome]; exact Option.some_ne_none col)
    exact Tableau.solutions_pivot_of_zero h.solved h.prices.width hr hne hz

namespace Snapshot

/-- The last entries of all rows, the objective row among them. -/
def solutionColumn (snapshot : Snapshot ℚ) : List ℚ := snapshot.grid.map (·.getLastD 0)

variable {snapshot : Snapshot ℚ} {t : Tableau ℚ}

theorem Shows.solutionColumn_eq (h : snapshot.Shows t) : snapshot.solutionColumn = t.solutions := by
  rw [solutionColumn, grid_of_view h.view_eq, Tableau.grid, List.map_append, List.map_map]
  simp only [Function.comp_def, Row.getLastD_values, List.map_cons, List.map_nil]
  rfl

theorem Shows.nonneg_of_isFeasible (h : snapshot.Shows t) (hf : t.IsFeasible) :
    ∀ row ∈ snapshot.constraintRows, 0 ≤ row.getLastD 0 := by
  rw [constraintRows_of_view h.view_eq, List.forall_mem_map]
  intro r hr
  rw [Row.getLastD_values]
  exact hf r hr

end Snapshot

namespace SimplexSettings

section Legs

variable {α : Type} [Scalar α] {s : SimplexSettings α} {p : Problem α} {phase : Option ℕ}
  {leg : Leg α}

theorem IsLeg.sense_eq (h : s.IsLeg p phase leg) : leg.goal.sense = p.stageSense phase := by
  cases h <;> rfl

end Legs

variable {s : SimplexSettings ℚ} {p : Problem ℚ} {phase : Option ℕ} {leg : Leg ℚ} {d : Pivot ℚ}
  {e : DriveOut ℚ}
  (hl : ∀ c ∈ p.constraints, c.coefficients.length = p.variableCount) (h0 : s.tolerance = 0)

include hl h0

theorem IsLeg.loaded (h : s.IsLeg p phase leg) : leg.loaded.IsFormOf p := by
  have hform := Tableau.isFormOf_standardForm hl
  cases h with
  | penalty _ => exact hform
  | first _ => exact hform
  | direct _ _ => exact hform
  | @second used hused hstatus =>
    have hfirst : (s.phaseOneLeg p used).IsExact := Leg.isExact_of_tolerance_eq_zero h0
    exact (isSettled_of_isExact hl h0.ge hfirst (Leg.isExact_of_tolerance_eq_zero h0) hstatus
      (isExact_driveOutPass hl h0 hstatus)).1

/-- Every tableau that a stage pivots from is a feasible one of the problem. -/
theorem IsLeg.before (h : s.IsLeg p phase leg) (hd : d ∈ leg.stage.pivots) :
    d.before.IsFormOf p ∧ d.before.Prices leg.costs :=
  (Leg.isExact_of_tolerance_eq_zero (h.tolerance_eq.trans h0)).before
    (h.tolerance_eq.trans h0).ge (h.loaded hl h0) h.length_costs d hd

theorem IsLeg.isFeasible_after (h : s.IsLeg p phase leg) (hd : d ∈ leg.stage.pivots) :
    d.after.IsFeasible :=
  ((Leg.isExact_of_tolerance_eq_zero (h.tolerance_eq.trans h0)).after
    (h.tolerance_eq.trans h0).ge hd (h.before hl h0 hd)).1.feasible

/-- No pivot makes the objective of its stage worse. -/
theorem IsLeg.allows_pivot (h : s.IsLeg p phase leg) (hd : d ∈ leg.stage.pivots) :
    (p.stageSense phase).Allows d.before.objectiveValue d.after.objectiveValue := by
  have htol : leg.goal.tolerance = 0 := h.tolerance_eq.trans h0
  obtain ⟨hform, hprices⟩ := h.before hl h0 hd
  have hstep := Goal.isStep_of_mem_run d hd
  obtain ⟨r, hr, hpos⟩ := hstep.leaving_row htol.ge
  obtain ⟨-, -, hgain⟩ := Tableau.enteringColumn_some htol.ge hstep.entering
  rw [hstep.after_eq, htol, ← h.sense_eq]
  exact Tableau.allows_objectiveValue_pivot hform.solved hprices.width hr hpos
    (hform.feasible r (List.mem_of_getElem? hr)) (htol ▸ hgain)

/-- Artificials are replaced in feasible tableaus, and the solution column stays. -/
theorem driveOut_keeps_solutions (he : e ∈ s.driveOuts p) :
    e.before.IsFeasible ∧ e.after.solutions = e.before.solutions := by
  obtain ⟨used, -, hstatus, hpass⟩ := mem_driveOuts_iff.mp he
  have hexact := isExact_driveOutPass hl h0 hstatus
  simp only [driveOutPass, h0] at hpass hexact
  have hfirst : (s.phaseOneLeg p used).IsExact := Leg.isExact_of_tolerance_eq_zero h0
  obtain ⟨hform, hprices⟩ := final_phaseOneLeg hl h0.ge hfirst
  have hstates : (s.phaseOneLeg p used).stage.final.States p (s.phaseOneLeg p used).costs :=
    ⟨⟨hform.columns_eq, hform.solved, hform.solves_iff⟩, hprices⟩
  have hstep : ∀ d ∈ (s.phaseOneLeg p used).stage.final.driveOut 0
      (List.range (s.phaseOneLeg p used).stage.final.rows.length),
      d.before.IsFeasible → d.after.solutions = d.before.solutions := fun d hd _ =>
    d.solutions_after (Tableau.isStep_of_mem_driveOut d hd) (hexact d hd)
      ((hstates.driveOut _).1 d hd).1
  obtain ⟨hbefore, -⟩ := Tableau.driveOut_invariant Tableau.IsFeasible hform.feasible
    fun d hd hf => Tableau.isFeasible_of_solutions_eq hf (hstep d hd hf)
  exact ⟨hbefore e hpass, hstep e hpass (hbefore e hpass)⟩

/-- Every recorded tableau is feasible. -/
theorem nonneg_of_mem_tableaus : ∀ snapshot ∈ (s.run p).solution.tableaus,
    ∀ row ∈ snapshot.constraintRows, 0 ≤ row.getLastD 0 := by
  apply forall_tableaus
  · intro phase leg iteration description h
    exact (leg.start.shows_snapshot ..).nonneg_of_isFeasible (h.loaded hl h0).feasible
  · intro phase leg d iteration h hd
    exact Snapshot.Shows.nonneg_of_isFeasible ⟨rfl, rfl, rfl⟩ (h.isFeasible_after hl h0 hd)
  · intro d col iteration hd _
    obtain ⟨hbefore, hsame⟩ := driveOut_keeps_solutions hl h0 hd
    exact Snapshot.Shows.nonneg_of_isFeasible ⟨rfl, rfl, rfl⟩
      (Tableau.isFeasible_of_solutions_eq hbefore hsame)

/-- A snapshot behind a pivot that no ratio test has chosen keeps the solution column. -/
theorem follows_solutionColumn :
    Snapshot.Follows (fun a b => b.ratios = [] → b.solutionColumn = a.solutionColumn)
      (s.run p).solution.tableaus := by
  apply follows_tableaus
  · intro phase leg d a iteration h hd _ hratios
    -- The leaving row has a ratio.
    have hstep := Goal.isStep_of_mem_run d hd
    obtain ⟨r, hr, -⟩ := hstep.leaving_row (h.tolerance_eq.trans h0).ge
    have hempty : d.before.ratios leg.goal.tolerance d.column = [] := hstep.ratios_eq ▸ hratios
    have hnone : (d.before.ratios leg.goal.tolerance d.column)[d.row]? = none := by
      rw [hempty, List.getElem?_nil]
    rw [Tableau.getElem?_ratios, hr] at hnone
    cases hnone
  · intro d col a iteration hd _ ha _
    have hb : (d.snapshot iteration col).Shows d.after := ⟨rfl, rfl, rfl⟩
    rw [hb.solutionColumn_eq, ha.solutionColumn_eq]
    exact (driveOut_keeps_solutions hl h0 hd).2

omit hl

/-- Every recorded tableau is feasible in its constraint rows, no pivot makes the objective of its
stage worse, and a snapshot behind a pivot without ratios, which drives out an artificial, has the
solution column of the snapshot that it follows. -/
theorem solve_improves (hv : p.validate = .ok ()) : ∃ solution, s.solve p = .ok solution ∧
    (∀ snapshot ∈ solution.tableaus, ∀ row ∈ snapshot.constraintRows, 0 ≤ row.getLastD 0) ∧
    (∀ iteration row column element entering leaving before after index,
      Event.pivot iteration row column element entering leaving before after index ∈
        solution.trace → ∃ snapshot, solution.tableaus[index]? = some snapshot ∧
          (p.stageSense snapshot.phase).Allows before after) ∧
    Snapshot.Follows (fun a b => b.ratios = [] → b.solutionColumn = a.solutionColumn)
      solution.tableaus := by
  have hl := p.length_of_validate hv
  refine ⟨_, solve_of_validate hv, nonneg_of_mem_tableaus hl h0, ?_,
    follows_solutionColumn hl h0⟩
  intro iteration row column element entering leaving before after index he
  obtain ⟨phase, leg, d, iteration', index', h, hd, heq, hget⟩ := tellsOf_of_mem he trivial
  cases heq
  exact ⟨_, hget, h.allows_pivot hl h0 hd⟩

omit h0 in
/-- Under a penalty of the wrong sign both phases run as well; the first snapshots are those of the
penalty, and the fifth drives out an artificial by a negative entry. -/
theorem solve_improves_crossingProblem : crossingProblem.validate = .ok () ∧
    ∃ solution, (⟨none, 0, .bigM, -1⟩ : SimplexSettings ℚ).solve crossingProblem = .ok solution ∧
      (∀ snapshot ∈ solution.tableaus, ∀ row ∈ snapshot.constraintRows, 0 ≤ row.getLastD 0) ∧
      (solution.tableaus.map fun b => (b.pivotElement, b.ratios.length)) =
        [(none, 0), (some 1, 2), (none, 0), (some 1, 2), (some (-2), 0), (none, 0)] := by
  have hv : crossingProblem.validate = .ok () := by decide +kernel
  obtain ⟨solution, hsolve, hnonneg, -⟩ := solve_improves (s := ⟨none, 0, .bigM, -1⟩) rfl hv
  obtain ⟨-, rfl⟩ := validate_of_solve hsolve
  exact ⟨hv, _, hsolve, hnonneg, by decide +kernel⟩

end SimplexSettings

end LinearProgram
