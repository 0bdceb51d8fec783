import LinearProgram.Proofs.Correctness

/-! # Solving without a tolerance

Over the rationals a tolerance of zero makes every solve exact: the two-phase method is then correct
in every verdict, and a penalty of any size is correct about optima and infeasibility.
-/

namespace LinearProgram

namespace SimplexSettings

variable {s : SimplexSettings ℚ} {p : Problem ℚ}

section

variable (hl : ∀ c ∈ p.constraints, c.coefficients.length = p.variableCount) (h : s.tolerance = 0)

include hl h

theorem isExact_driveOutPass {used : ℕ} (hstatus : s.phaseOneStatus p used = none) :
    ∀ d ∈ s.driveOutPass p used, d.IsExact := by
  have hfirst : (s.phaseOneLeg p used).IsExact := Leg.isExact_of_tolerance_eq_zero h
  have hform := (final_phaseOneLeg hl h.ge hfirst).1
  have hzero := hfirst.artificials (atMost_of_phaseOneStatus_none hstatus)
  simp only [driveOutPass, h]
  exact hform.isExact_driveOut_zero hzero

theorem isExact_of_tolerance_eq_zero : s.IsExact p := by
  refine ⟨fun leg hleg => ?_, fun d hd => ?_⟩
  · exact Leg.isExact_of_tolerance_eq_zero ((tolerance_of_mem_legs leg hleg).trans h)
  · obtain ⟨used, -, hstatus, hpass⟩ := mem_driveOuts_iff.mp hd
    exact isExact_driveOutPass hl h hstatus d hpass

end

/-- An optimum is found by a stage that ends with artificials at zero. None that is left basic is in
the way of another column if none is under the penalty. -/
theorem optimizes_lastLeg
    (hl : ∀ c ∈ p.constraints, c.coefficients.length = p.variableCount) (h0 : s.tolerance = 0)
    (hopt : (s.outcome p).status = .optimal) :
    (s.lastLeg p).Optimizes p ∧ (s.lastLeg p).goal.tolerance = 0 ∧
      (s.lastLeg p).stage.final.ArtificialsAtMost 0 ∧
      ((s.discipline = .bigM → s.bothPhasesFrom? p = none →
          ∀ i, (s.penaltyLeg p).stage.final.IsIdleAt i) →
        ∀ i, (s.lastLeg p).stage.final.IsIdleAt i) := by
  have hlast := outcome_lastLeg hopt
  have hlegs := (isExact_of_tolerance_eq_zero hl h0).legs
  rw [legs] at hlegs
  cases hfrom : s.bothPhasesFrom? p with
  | some used =>
    have hboth : (s.bothPhasesOutcome p used).status = .optimal := by
      simpa only [outcome, hfrom] using hopt
    have hstatus := phaseOneStatus_of_optimal hboth
    simp only [hfrom, bothPhasesLegs, hstatus, List.forall_mem_cons] at hlegs
    rw [lastLeg_of_feasible hfrom hstatus]
    obtain ⟨hbasis, hfinal⟩ := isSettled_of_isExact hl h0.ge hlegs.1 hlegs.2.1 hstatus
      (isExact_driveOutPass hl h0 hstatus)
    exact ⟨optimizes_phaseTwoLeg hbasis, h0, hfinal.atMost, fun _ => hfinal.idle⟩
  | none =>
    simp only [hfrom, List.forall_mem_singleton] at hlegs
    rw [lastLeg_of_direct hfrom] at hlast ⊢
    obtain ⟨hend, -⟩ := Leg.outcome_of_optimal ((congrArg _ hlast).trans hopt)
    have hstop : (s.directLeg p).stage.ending ≠ .outOfPivots := fun hout => by
      cases hend.symm.trans hout
    refine ⟨optimizes_directLeg hl, tolerance_directLeg.trans h0,
      directLeg_atMost_zero hl h0.ge hlegs hfrom hstop, fun hidle i => ?_⟩
    cases hd : s.discipline with
    | bigM =>
      simp only [directLeg, hd]
      exact hidle hd rfl i
    | twoPhase =>
      intro r hr hart
      rw [(isFormOf_directLeg hl h0.ge fun d hmem => (hlegs.pivots d hmem).toKeepsRegion
        ).isArtificial_eq, isArtificial_eq_false_of_twoPhase hfrom hd] at hart
      cases hart

/-- The two-phase method is correct in every verdict. -/
theorem twoPhase_correct (hv : p.validate = .ok ()) (cap : Option ℕ) (bigM : ℚ) :
    ∃ solution, (⟨cap, 0, .twoPhase, bigM⟩ : SimplexSettings ℚ).solve p = .ok solution ∧
      (solution.status = .optimal → p.Optimal solution.assignment) ∧
      (solution.status = .unbounded → p.Unbounded) ∧
      (solution.status = .infeasible → p.Infeasible) := by
  have hl := p.length_of_validate hv
  have hex : (⟨cap, 0, .twoPhase, bigM⟩ : SimplexSettings ℚ).IsExact p :=
    isExact_of_tolerance_eq_zero hl rfl
  refine ⟨_, solve_of_validate hv, ?_⟩
  rw [status_run, assignment_run]
  exact ⟨hex.optimal hl le_rfl, fun h => hex.unbounded hl le_rfl h nofun,
    hex.infeasible hl le_rfl⟩

theorem twoPhase_correct_redundantProblem : redundantProblem.validate = .ok () ∧
    ∃ solution,
      (⟨none, 0, .twoPhase, 1⟩ : SimplexSettings ℚ).solve redundantProblem = .ok solution ∧
      solution.assignment = [1 / 2, 3 / 2] ∧ redundantProblem.Optimal solution.assignment := by
  have hv : redundantProblem.validate = .ok () := by decide +kernel
  obtain ⟨solution, hsolve, hopt, -⟩ := twoPhase_correct hv none 1
  obtain ⟨-, rfl⟩ := validate_of_solve hsolve
  exact ⟨hv, _, hsolve, by decide +kernel, hopt (by decide +kernel)⟩

/-- A penalty of any size, also one that is not positive, is correct about optima and about
infeasibility. -/
theorem bigM_correct (hv : p.validate = .ok ()) (cap : Option ℕ) (bigM : ℚ) :
    ∃ solution, (⟨cap, 0, .bigM, bigM⟩ : SimplexSettings ℚ).solve p = .ok solution ∧
      (solution.status = .optimal → p.Optimal solution.assignment) ∧
      (solution.status = .infeasible → p.Infeasible) := by
  have hl := p.length_of_validate hv
  have hex : (⟨cap, 0, .bigM, bigM⟩ : SimplexSettings ℚ).IsExact p :=
    isExact_of_tolerance_eq_zero hl rfl
  refine ⟨_, solve_of_validate hv, ?_⟩
  rw [status_run, assignment_run]
  exact ⟨hex.optimal hl le_rfl, hex.infeasible hl le_rfl⟩

/-- A penalty of the wrong sign is rechecked. -/
theorem bigM_correct_redundantProblem : redundantProblem.validate = .ok () ∧
    ∃ solution, (⟨none, 0, .bigM, -1⟩ : SimplexSettings ℚ).solve redundantProblem = .ok solution ∧
      solution.assignment = [1 / 2, 3 / 2] ∧ redundantProblem.Optimal solution.assignment := by
  have hv : redundantProblem.validate = .ok () := by decide +kernel
  obtain ⟨solution, hsolve, hopt, -⟩ := bigM_correct hv none (-1)
  obtain ⟨-, rfl⟩ := validate_of_solve hsolve
  exact ⟨hv, _, hsolve, by decide +kernel, hopt (by decide +kernel)⟩

end SimplexSettings

end LinearProgram
