import LinearProgram.Proofs.Course
import LinearProgram.Proofs.DriveOut

/-! # Feasibility of the answer

The point of an optimal answer is read off a tableau of the problem whose artificials are at most
the tolerance, if every pivot kept the region and every artificial was driven out exactly. Such a
point misses no constraint by more than the tolerance.
-/

namespace LinearProgram

namespace Tableau

variable {p : Problem ℚ} {t : Tableau ℚ} {level tolerance : ℚ}

theorem positiveArtificial?_eq_none :
    t.positiveArtificial? tolerance = none ↔ t.ArtificialsAtMost tolerance := by
  simp [positiveArtificial?, ArtificialsAtMost, List.find?_eq_none]

theorem hasArtificialPart_eq_false : t.hasArtificialPart tolerance = false ↔
    t.objectiveValue ≤ tolerance * max 1 |t.objectiveValue| ∧ t.ArtificialsAtMost tolerance := by
  rw [hasArtificialPart, Bool.or_eq_false_iff, decide_eq_false_iff_not, not_lt, Scalar.larger_eq,
    Scalar.abs_eq, Option.isSome_eq_false_iff, Option.isNone_iff_eq_none,
    positiveArtificial?_eq_none]

theorem isArtificial_eq_false (h : t.count .artificial = 0) (j : ℕ) :
    t.isArtificial j = false := by
  rw [isArtificial, Option.any_eq_false]
  intro column hcolumn
  have hnone := List.countP_eq_zero.mp h column (List.mem_of_getElem? hcolumn)
  simpa using hnone

theorem IsFormOf.assignment_eq (h : t.IsFormOf p) : t.assignment = p.pointOf t.basicPoint := by
  rw [Tableau.assignment_eq, Problem.pointOf, Problem.count_decision h.columns_eq]

theorem IsFormOf.basicPoint_artificial_le (h : t.IsFormOf p) (h0 : 0 ≤ level)
    (hlevel : t.ArtificialsAtMost level) {j : ℕ} (hj : t.isArtificial j = true) :
    t.basicPoint j ≤ level := by
  by_cases hb : ∃ r ∈ t.rows, r.basic = j
  · obtain ⟨r, hr, rfl⟩ := hb
    rw [h.solved.basicPoint_basic hr]
    exact hlevel r hr hj
  · rw [basicPoint_of_not_basic fun r hr hrj => hb ⟨r, hr, hrj⟩]
    exact h0

theorem IsFormOf.within_assignment (h : t.IsFormOf p)
    (hl : ∀ c ∈ p.constraints, c.coefficients.length = p.variableCount) (h0 : 0 ≤ level)
    (hlevel : t.ArtificialsAtMost level) :
    ∀ c ∈ p.constraints, c.relation.Within level (c.lhs t.assignment) c.bound := by
  rw [h.assignment_eq]
  refine p.within_pointOf hl (h.solves_iff.mp h.solved.solves_basicPoint)
    (h.solved.basicPoint_nonneg h.feasible) h0 fun j hj => ?_
  exact h.basicPoint_artificial_le h0 hlevel ((h.isArtificial_eq j).trans hj)

theorem IsFormOf.assignment_nonneg (h : t.IsFormOf p) : ∀ v ∈ t.assignment, 0 ≤ v := by
  intro v hv
  rw [h.assignment_eq] at hv
  obtain ⟨j, -, rfl⟩ := List.mem_map.mp hv
  exact h.solved.basicPoint_nonneg h.feasible j

end Tableau

theorem Leg.optimalValue_of_optimal {leg : Leg ℚ} {p : Problem ℚ}
    (h : (leg.outcome p).status = .optimal) :
    (leg.outcome p).optimalValue = some (p.objective.evaluate (leg.outcome p).assignment) := by
  rw [outcome, (outcome_of_optimal h).1]
  rfl

namespace SimplexSettings

variable {s : SimplexSettings ℚ} {p : Problem ℚ} {used : ℕ} {level : ℚ}

/-- The first phase is left with artificials up to the tolerance. -/
theorem atMost_of_phaseOneStatus_none (h : s.phaseOneStatus p used = none) :
    (s.phaseOneLeg p used).stage.final.ArtificialsAtMost s.tolerance := by
  simp only [phaseOneStatus] at h
  split at h
  · cases h
  · cases h
  · split at h
    · cases h
    · next hpart =>
      rw [Bool.not_eq_true, Tableau.hasArtificialPart_eq_false] at hpart
      exact hpart.2

section

variable (hl : ∀ c ∈ p.constraints, c.coefficients.length = p.variableCount)
  (h0 : 0 ≤ s.tolerance)

include hl h0

/-- The second phase starts from a tableau of the problem in which all artificials are idle. -/
theorem isSettled_feasibleBasis
    (hlevel : (s.phaseOneLeg p used).stage.final.ArtificialsAtMost level)
    (hk : ∀ d ∈ (s.phaseOneLeg p used).stage.pivots, d.KeepsRegion)
    (hd : ∀ d ∈ s.driveOutPass p used, d.IsExact) :
    (s.feasibleBasis p used).IsSettled p level :=
  (Goal.run_isFormOf h0 ((Tableau.isFormOf_standardForm hl).setObjective ..) hk).isSettled_driveOut
    h0 hlevel hd

omit hl h0 in
theorem isArtificial_of_allowed_secondLeg (hbasis : (s.feasibleBasis p used).IsFormOf p) (j : ℕ)
    (hj : (s.secondLeg p used).goal.allowed j = true) : p.standardForm.isArtificial j = false := by
  have hj : (!(s.feasibleBasis p used).isArtificial j) = true := hj
  rw [hbasis.isArtificial_eq] at hj
  simpa using hj

theorem isSettled_secondLeg (hlevel : (s.phaseOneLeg p used).stage.final.ArtificialsAtMost level)
    (hfirst : ∀ d ∈ (s.phaseOneLeg p used).stage.pivots, d.KeepsRegion)
    (hd : ∀ d ∈ s.driveOutPass p used, d.IsExact)
    (hsecond : ∀ d ∈ (s.secondLeg p used).stage.pivots, d.KeepsRegion) :
    (s.secondLeg p used).stage.final.IsSettled p level := by
  have hbasis := isSettled_feasibleBasis hl h0 hlevel hfirst hd
  exact Goal.run_isSettled h0 (hbasis.of_rows_eq rfl rfl)
    (isArtificial_of_allowed_secondLeg hbasis.toIsFormOf) hsecond

theorem isFormOf_directLeg (hk : ∀ d ∈ (s.directLeg p).stage.pivots, d.KeepsRegion) :
    (s.directLeg p).stage.final.IsFormOf p := by
  rw [directLeg] at hk ⊢
  cases hd : s.discipline <;> simp only [hd] at hk ⊢ <;>
    exact Goal.run_isFormOf h0 ((Tableau.isFormOf_standardForm hl).setObjective ..) hk

omit hl h0 in
/-- A second phase without a first one is run when there are no artificials. -/
theorem isArtificial_eq_false_of_twoPhase (hfrom : s.bothPhasesFrom? p = none)
    (hd : s.discipline = .twoPhase) (j : ℕ) : p.standardForm.isArtificial j = false := by
  refine Tableau.isArtificial_eq_false ?_ j
  by_contra hne
  rw [bothPhasesFrom?, hd] at hfrom
  simp only [if_pos (Nat.pos_of_ne_zero hne)] at hfrom
  cases hfrom

omit hl h0 in
/-- Without both phases a solve that stops leaves artificials up to the tolerance. -/
theorem atMost_directLeg (hfrom : s.bothPhasesFrom? p = none)
    (hform : (s.directLeg p).stage.final.IsFormOf p)
    (hstop : (s.directLeg p).stage.ending ≠ .outOfPivots) :
    (s.directLeg p).stage.final.ArtificialsAtMost s.tolerance := by
  cases hd : s.discipline with
  | bigM =>
    rw [bothPhasesFrom?, hd] at hfrom
    simp only [directLeg, hd] at hstop ⊢
    have hnot : s.isRechecked p ≠ true := fun h => by simp [h] at hfrom
    rw [ne_eq, isRechecked_iff, not_and] at hnot
    rw [← Tableau.positiveArtificial?_eq_none]
    simpa using hnot hstop
  | twoPhase =>
    intro r hr hart
    rw [hform.isArtificial_eq, isArtificial_eq_false_of_twoPhase hfrom hd] at hart
    cases hart

/-- An optimal answer is read off a tableau of the problem with artificials up to the tolerance. -/
theorem exists_tableau_of_optimal (hopt : (s.outcome p).status = .optimal)
    (hk : ∀ leg ∈ s.legs p, ∀ d ∈ leg.stage.pivots, d.KeepsRegion)
    (hd : ∀ d ∈ s.driveOuts p, d.IsExact) :
    ∃ t : Tableau ℚ, t.IsFormOf p ∧ t.ArtificialsAtMost s.tolerance ∧
      (s.outcome p).assignment = t.assignment := by
  rw [outcome] at hopt ⊢
  rw [legs] at hk
  cases hfrom : s.bothPhasesFrom? p with
  | some used =>
    simp only [hfrom] at hopt hk ⊢
    have hstatus := phaseOneStatus_of_optimal hopt
    have hpass : ∀ d ∈ s.driveOutPass p used, d.IsExact := fun d hmem =>
      hd d (mem_driveOuts_iff.mpr ⟨used, hfrom, hstatus, hmem⟩)
    simp only [bothPhasesOutcome, bothPhasesLegs, hstatus, List.forall_mem_cons] at hopt hk ⊢
    obtain ⟨-, hassign⟩ := Leg.outcome_of_optimal hopt
    have hfinal :=
      isSettled_secondLeg hl h0 (atMost_of_phaseOneStatus_none hstatus) hk.1 hpass hk.2.1
    exact ⟨_, hfinal.toIsFormOf, hfinal.atMost, hassign⟩
  | none =>
    simp only [hfrom, List.forall_mem_singleton] at hopt hk ⊢
    obtain ⟨hending, hassign⟩ := Leg.outcome_of_optimal hopt
    exact ⟨_, isFormOf_directLeg hl h0 hk, atMost_directLeg hfrom (isFormOf_directLeg hl h0 hk)
      (fun hout => by cases (hending.symm.trans hout)), hassign⟩

end

/-- An optimal answer passes the program's own test, if the leaving rows were lowest, nothing in a
row was rounded away, and artificials were driven out exactly. -/
theorem isSatisfied_of_optimal {solution : SimplexSolution ℚ} (h0 : 0 ≤ s.tolerance)
    (hsolve : s.solve p = .ok solution) (hopt : solution.status = .optimal)
    (hk : ∀ leg ∈ s.legs p, ∀ d ∈ leg.stage.pivots, d.KeepsRegion)
    (hd : ∀ d ∈ s.driveOuts p, d.IsExact) :
    solution.assignment.length = p.variableCount ∧
      (∀ v ∈ solution.assignment, Relation.ge.holds s.tolerance v 0 = true) ∧
      ∀ c ∈ p.constraints, c.isSatisfied s.tolerance solution.assignment = true := by
  obtain ⟨hv, rfl⟩ := validate_of_solve hsolve
  have hl := p.length_of_validate hv
  rw [status_run] at hopt
  obtain ⟨t, ht, hlevel, hassign⟩ := exists_tableau_of_optimal hl h0 hopt hk hd
  rw [assignment_run, hassign]
  refine ⟨by rw [ht.assignment_eq, Problem.length_pointOf], fun v hv => ?_, fun c hc => ?_⟩
  · refine Relation.holds_of_within le_rfl h0 (Relation.within_zero.mpr ?_)
    exact ht.assignment_nonneg v hv
  · exact Relation.holds_of_within h0 le_rfl (ht.within_assignment hl h0 hlevel c hc)

/-- A redundant equation, whose artificial stays basic and idle. -/
def redundantProblem : Problem ℚ :=
  ⟨⟨[1, 2], .maximize⟩, [⟨[1, 1], .eq, 2⟩, ⟨[2, 2], .eq, 4⟩, ⟨[-1, 1], .le, 1⟩]⟩

theorem isSatisfied_redundantProblem : ∃ solution,
    (⟨none, 1e-9, .twoPhase, 1e6⟩ : SimplexSettings ℚ).solve redundantProblem = .ok solution ∧
      ∀ c ∈ redundantProblem.constraints,
        c.isSatisfied (1e-9 : ℚ) solution.assignment = true := by
  have hsolve := solve_of_validate (s := (⟨none, 1e-9, .twoPhase, 1e6⟩ : SimplexSettings ℚ))
    (show redundantProblem.validate = .ok () by decide +kernel)
  obtain ⟨-, -, hsatisfied⟩ := isSatisfied_of_optimal (by norm_num) hsolve (by decide +kernel)
    (by decide +kernel) (by decide +kernel)
  exact ⟨_, hsolve, hsatisfied⟩

/-- Problems on which a shortcut of the tolerance leaves the region, under either discipline: a row
with an entry too small to bound, a ratio too close to another one, an equation too faint to be
kept, and a difference of two rows that is rounded away. -/
def faintProblems : List (Problem ℚ) :=
  [⟨⟨[1], .maximize⟩, [⟨[1], .le, 1e12⟩, ⟨[1e-10], .le, 1⟩]⟩,
    ⟨⟨[1], .maximize⟩, [⟨[1], .le, 5e-10⟩, ⟨[1e12], .le, 0⟩]⟩,
    ⟨⟨[1], .maximize⟩, [⟨[1], .le, 1e12⟩, ⟨[5e-10], .eq, 0⟩]⟩,
    ⟨⟨[2, 1], .maximize⟩,
      [⟨[1, -1], .le, 10⟩, ⟨[1, -0.9999999999995], .le, 10⟩, ⟨[0, 1], .le, 1e14⟩]⟩]

/-- An artificial that is within the tolerance of zero is driven out by a column of its sign. -/
def sinkingProblem : Problem ℚ := ⟨⟨[1], .maximize⟩, [⟨[-2e-9], .eq, 5e-10⟩]⟩

theorem not_isSatisfied_faintProblems :
    (∀ p ∈ faintProblems, p.validate = .ok () ∧ ∀ d ∈ [Discipline.bigM, .twoPhase],
      let solution := ({ (standard : SimplexSettings ℚ) with discipline := d }.run p).solution
      solution.status = .optimal ∧ ∃ c ∈ p.constraints,
        c.isSatisfied Scalar.defaultTolerance solution.assignment = false) ∧
      sinkingProblem.validate = .ok () ∧
      let phased : SimplexSettings ℚ := { standard with discipline := .twoPhase }
      let solution := (phased.run sinkingProblem).solution
      solution.status = .optimal ∧ ∃ v ∈ solution.assignment,
        Relation.ge.holds Scalar.defaultTolerance v 0 = false := by
  decide +kernel

end SimplexSettings

end LinearProgram
