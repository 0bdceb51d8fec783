import LinearProgram.Proofs.Exactness

/-! # Correct outcomes

An exact two-phase solve is correct in every verdict. Under the penalty an exact solve is correct
when it reports an optimum or infeasibility, whatever the penalty is; it is correct when it reports
no bound if no artificial grows along the last column.
-/

namespace LinearProgram

/-- Every verdict is the one that the problem has. -/
structure Outcome.IsCorrect (o : Outcome ℚ) (p : Problem ℚ) : Prop where
  optimal : o.status = .optimal → p.Optimal o.assignment
  unbounded : o.status = .unbounded → p.Unbounded
  infeasible : o.status = .infeasible → p.Infeasible

/-- No artificial is the unbounded column or grows along it. -/
def Ending.SparesArtificials (t : Tableau ℚ) : Ending ℚ → Prop
  | unbounded col _ => t.isArtificial col = false ∧
      ∀ r ∈ t.rows, t.isArtificial r.basic = true → r.entry col = 0
  | optimal | outOfPivots => True

instance (t : Tableau ℚ) (ending : Ending ℚ) : Decidable (ending.SparesArtificials t) :=
  match ending with
  | .unbounded col _ => inferInstanceAs (Decidable (t.isArtificial col = false ∧
      ∀ r ∈ t.rows, t.isArtificial r.basic = true → r.entry col = 0))
  | .optimal | .outOfPivots => inferInstanceAs (Decidable True)

theorem Ending.sparesArtificials_of_forall {t : Tableau ℚ} (h : ∀ j, t.isArtificial j = false)
    (ending : Ending ℚ) : ending.SparesArtificials t := by
  cases ending with
  | unbounded col ratios => exact ⟨h col, fun r _ hr => by rw [h] at hr; cases hr⟩
  | optimal => trivial
  | outOfPivots => trivial

namespace Leg

/-- The stage optimizes the objective of the problem and bars artificial columns at most. -/
structure Optimizes (leg : Leg ℚ) (p : Problem ℚ) : Prop where
  loaded : leg.loaded.IsFormOf p
  sense_eq : leg.goal.sense = p.objective.sense
  costs_eq : ∃ penalty, leg.costs = leg.loaded.costs p.objective.coefficients penalty
  barred : ∀ j, leg.goal.allowed j = false → p.standardForm.isArtificial j = true

variable {leg : Leg ℚ} {p : Problem ℚ}
  (hl : ∀ c ∈ p.constraints, c.coefficients.length = p.variableCount)
  (h0 : 0 ≤ leg.goal.tolerance)

theorem status_eq_unbounded (h : (leg.outcome p).status = .unbounded) :
    ∃ col ratios, leg.stage.ending = .unbounded col ratios := by
  rw [outcome] at h
  split at h
  · cases h
  · next col ratios hend => exact ⟨col, ratios, hend⟩
  · cases h

theorem status_ne_infeasible : (leg.outcome p).status ≠ .infeasible := by
  rw [outcome]
  split <;> simp [Outcome.finish, Outcome.stop]

/-- At the optimum of an exact stage no column gains that may enter. -/
theorem Optimizes.gain_nonpos (ho : leg.Optimizes p) (he : leg.IsExact)
    (hend : leg.stage.ending = .optimal) :
    ∀ col < leg.stage.final.columnCount, leg.goal.allowed col = true →
      leg.stage.final.gain p.objective.sense col ≤ 0 := by
  have hgain := he.ending
  rw [hend] at hgain
  rw [← ho.sense_eq]
  exact hgain

include h0

/-- An exact stage ends with a tableau of the problem that prices the objective. -/
theorem Optimizes.final (ho : leg.Optimizes p) (he : leg.IsExact) :
    leg.stage.final.IsFormOf p ∧ ∃ penalty,
      leg.stage.final.Prices (leg.loaded.costs p.objective.coefficients penalty) := by
  obtain ⟨penalty, hcosts⟩ := ho.costs_eq
  obtain ⟨hform, hprices⟩ := he.final h0 ho.loaded (by rw [hcosts, Problem.length_costs])
  exact ⟨hform, penalty, hcosts ▸ hprices⟩

include hl

/-- An exact stage that ends optimal with artificials at zero ends at an optimum. -/
theorem Optimizes.optimal (ho : leg.Optimizes p) (he : leg.IsExact)
    (hlevel : leg.stage.final.ArtificialsAtMost 0) (h : (leg.outcome p).status = .optimal) :
    p.Optimal (leg.outcome p).assignment := by
  obtain ⟨hend, hassign⟩ := outcome_of_optimal h
  obtain ⟨hform, penalty, hprices⟩ := ho.final h0 he
  rw [hassign]
  exact hform.optimal_assignment hl ho.loaded.columns_eq hprices hlevel (ho.gain_nonpos he hend)
    ho.barred

omit hl in
/-- Idle artificials are spared by columns that are not artificial. -/
theorem sparesArtificials (hfinal : leg.stage.final.IsSettled p 0)
    (hall : ∀ j, leg.goal.allowed j = true → p.standardForm.isArtificial j = false) :
    leg.stage.ending.SparesArtificials leg.stage.final := by
  cases hend : leg.stage.ending with
  | unbounded col ratios =>
    obtain ⟨-, hallowed, -⟩ :=
      Tableau.enteringColumn_some h0 (Goal.entering?_of_unbounded hend).1
    have hcol : leg.stage.final.isArtificial col = false :=
      (hfinal.isArtificial_eq col).trans (hall col hallowed)
    refine ⟨hcol, fun r hr hart => ?_⟩
    obtain ⟨i, hi⟩ := List.mem_iff_getElem?.mp hr
    exact hfinal.idle i r hi hart col hcol
  | optimal => trivial
  | outOfPivots => trivial

/-- An exact stage that ends unbounded and spares the artificials shows that there is no bound. -/
theorem Optimizes.unbounded (ho : leg.Optimizes p) (he : leg.IsExact)
    (hlevel : leg.stage.final.ArtificialsAtMost 0)
    (hray : leg.stage.ending.SparesArtificials leg.stage.final)
    (h : (leg.outcome p).status = .unbounded) : p.Unbounded := by
  obtain ⟨col, ratios, hend⟩ := status_eq_unbounded h
  obtain ⟨hform, penalty, hprices⟩ := ho.final h0 he
  obtain ⟨hcol, -, hgain⟩ := Tableau.enteringColumn_some h0 (Goal.entering?_of_unbounded hend).1
  have hfree := he.ending
  rw [hend] at hfree hray
  rw [ho.sense_eq] at hgain
  exact hform.unbounded hl ho.loaded.columns_eq hprices hlevel hcol (h0.trans_lt hgain) hfree
    hray.1 hray.2

end Leg

namespace SimplexSettings

/-- The tolerance decides nothing on the way to the outcome. -/
structure IsExact (s : SimplexSettings ℚ) (p : Problem ℚ) : Prop where
  legs : ∀ leg ∈ s.legs p, leg.IsExact
  driveOuts : ∀ d ∈ s.driveOuts p, d.IsExact

instance (s : SimplexSettings ℚ) (p : Problem ℚ) : Decidable (s.IsExact p) :=
  decidable_of_iff ((∀ leg ∈ s.legs p, leg.IsExact) ∧ ∀ d ∈ s.driveOuts p, d.IsExact)
    ⟨fun h => ⟨h.1, h.2⟩, fun h => ⟨h.1, h.2⟩⟩

variable {s : SimplexSettings ℚ} {p : Problem ℚ} {used : ℕ}
  (hl : ∀ c ∈ p.constraints, c.coefficients.length = p.variableCount)
  (h0 : 0 ≤ s.tolerance)

theorem combine_phaseOne_costs (s : SimplexSettings ℚ) (p : Problem ℚ) (used : ℕ) (z : ℕ → ℚ) :
    combine (s.phaseOneLeg p used).costs z = p.artificialSum z := by
  rw [phaseOneLeg, Problem.combine_costs rfl (List.length_replicate ..), combine_replicate_zero,
    zero_add, one_mul]

include hl h0

/-- An exact first phase ends with a tableau of the problem that prices the artificials. -/
theorem final_phaseOneLeg (he : (s.phaseOneLeg p used).IsExact) :
    (s.phaseOneLeg p used).stage.final.IsFormOf p ∧
      (s.phaseOneLeg p used).stage.final.Prices (s.phaseOneLeg p used).costs :=
  he.final h0 (Tableau.isFormOf_standardForm hl) (Problem.length_costs ..)

/-- The first phase minimizes a sum that is not negative, so it is not unbounded. -/
theorem phaseOneLeg_not_unbounded (he : (s.phaseOneLeg p used).IsExact) (col : ℕ)
    (ratios : List (Option ℚ)) : (s.phaseOneLeg p used).stage.ending ≠ .unbounded col ratios := by
  intro hend
  obtain ⟨hform, hprices⟩ := final_phaseOneLeg hl h0 he
  obtain ⟨hcol, -, hgain⟩ := Tableau.enteringColumn_some h0 (Goal.entering?_of_unbounded hend).1
  have hfree := he.ending
  rw [hend] at hfree
  obtain ⟨level, hlevel, hbeyond⟩ :=
    hprices.exists_edgePoint_beyond hform.solved hcol (h0.trans_lt hgain) 0
  have hsum : 0 ≤ p.artificialSum ((s.phaseOneLeg p used).stage.final.edgePoint col level) :=
    p.artificialSum_nonneg
      (Tableau.edgePoint_feasible hform.solved hform.feasible hfree hlevel)
  rw [combine_phaseOne_costs] at hbeyond
  have hsign : (s.phaseOneLeg p used).goal.sense.sign = -1 := rfl
  rw [hsign] at hbeyond
  linarith

/-- When a feasible point exists an exact first phase ends with artificials at zero. -/
theorem artificialSum_phaseOne (he : (s.phaseOneLeg p used).IsExact)
    (hend : (s.phaseOneLeg p used).stage.ending = .optimal) {x : List ℚ} (hx : p.Feasible x) :
    p.artificialSum (s.phaseOneLeg p used).stage.final.basicPoint ≤ 0 ∧
      (s.phaseOneLeg p used).stage.final.objectiveValue ≤ 0 := by
  obtain ⟨hform, hprices⟩ := final_phaseOneLeg hl h0 he
  have hgain := he.ending
  rw [hend] at hgain
  have hbest := hprices.basicPoint_optimal hform.solved hgain
    (hform.solves_iff.mpr (p.solves_extend hl hx)) (p.extend_nonneg hx) (by simp [phaseOneLeg])
  rw [combine_phaseOne_costs, combine_phaseOne_costs,
    p.artificialSum_eq_zero fun j => p.extend_artificial hx.length_eq] at hbest
  have hsign : (s.phaseOneLeg p used).goal.sense.sign = -1 := rfl
  rw [hsign] at hbest
  have hvalue := hprices.combine_basicPoint hform.solved
  rw [combine_phaseOne_costs] at hvalue
  rw [← hvalue]
  constructor <;> linarith

theorem infeasible_of_phaseOneStatus (he : (s.phaseOneLeg p used).IsExact)
    (hstatus : s.phaseOneStatus p used = some .infeasible) : p.Infeasible := by
  intro x hx
  simp only [phaseOneStatus] at hstatus
  split at hstatus
  · next hend => exact phaseOneLeg_not_unbounded hl h0 he _ _ hend
  · cases hstatus
  · next hend =>
    obtain ⟨hsum, hvalue⟩ := artificialSum_phaseOne hl h0 he hend hx
    obtain ⟨hform, -⟩ := final_phaseOneLeg hl h0 he
    have hnone : (s.phaseOneLeg p used).stage.final.hasArtificialPart s.tolerance = false := by
      refine Tableau.hasArtificialPart_eq_false.mpr ⟨hvalue.trans (by positivity), ?_⟩
      intro r hr hart
      exact (hform.atMost_artificialSum r hr hart).trans (hsum.trans h0)
    rw [hnone] at hstatus
    cases hstatus

omit hl h0 in
theorem optimizes_phaseTwoLeg {t : Tableau ℚ} (h : t.IsFormOf p) :
    (s.phaseTwoLeg p t used).Optimizes p := by
  refine ⟨h, rfl, ⟨0, rfl⟩, fun j hj => ?_⟩
  rw [← h.isArtificial_eq]
  simpa [phaseTwoLeg] using hj

omit h0 in
theorem optimizes_penaltyLeg : (s.penaltyLeg p).Optimizes p :=
  ⟨Tableau.isFormOf_standardForm hl, rfl, ⟨_, rfl⟩, by simp [penaltyLeg]⟩

/-- Exact phases start the second one from a tableau of the problem and end with artificials idle at
zero. -/
theorem isSettled_of_isExact (hfirst : (s.phaseOneLeg p used).IsExact)
    (hsecond : (s.secondLeg p used).IsExact) (hstatus : s.phaseOneStatus p used = none)
    (hd : ∀ d ∈ s.driveOutPass p used, d.IsExact) :
    (s.feasibleBasis p used).IsFormOf p ∧ (s.secondLeg p used).stage.final.IsSettled p 0 := by
  have hzero := hfirst.artificials (atMost_of_phaseOneStatus_none hstatus)
  have hkeeps : ∀ {leg : Leg ℚ}, leg.IsExact → ∀ d ∈ leg.stage.pivots, d.KeepsRegion :=
    fun h d hmem => (h.pivots d hmem).toKeepsRegion
  exact ⟨(isSettled_feasibleBasis hl h0 hzero (hkeeps hfirst) hd).toIsFormOf,
    isSettled_secondLeg hl h0 hzero (hkeeps hfirst) hd (hkeeps hsecond)⟩

/-- Exact phases are correct in every verdict. -/
theorem isCorrect_bothPhases (he : ∀ leg ∈ s.bothPhasesLegs p used, leg.IsExact)
    (hd : s.phaseOneStatus p used = none → ∀ d ∈ s.driveOutPass p used, d.IsExact) :
    (s.bothPhasesOutcome p used).IsCorrect p := by
  rw [bothPhasesLegs, List.forall_mem_cons] at he
  obtain ⟨hfirst, hrest⟩ := he
  rw [bothPhasesOutcome]
  cases hstatus : s.phaseOneStatus p used with
  | some status =>
    have hcases := eq_of_phaseOneStatus hstatus
    refine ⟨?_, ?_, ?_⟩
    · rintro rfl
      simp at hcases
    · rintro rfl
      simp at hcases
    · rintro rfl
      exact infeasible_of_phaseOneStatus hl h0 hfirst hstatus
  | none =>
    simp only [hstatus, List.forall_mem_singleton] at hrest
    obtain ⟨hbasis, hfinal⟩ := isSettled_of_isExact hl h0 hfirst hrest hstatus (hd hstatus)
    have ho : (s.secondLeg p used).Optimizes p := optimizes_phaseTwoLeg hbasis
    refine ⟨ho.optimal hl h0 hrest hfinal.atMost, ho.unbounded hl h0 hrest hfinal.atMost ?_,
      fun h => absurd h Leg.status_ne_infeasible⟩
    exact Leg.sparesArtificials h0 hfinal (isArtificial_of_allowed_secondLeg hbasis)

omit h0 in
theorem optimizes_directLeg : (s.directLeg p).Optimizes p := by
  rw [directLeg]
  split
  · exact optimizes_penaltyLeg hl
  · exact optimizes_phaseTwoLeg (Tableau.isFormOf_standardForm hl)

omit hl h0 in
theorem tolerance_directLeg : (s.directLeg p).goal.tolerance = s.tolerance := by
  rw [directLeg]
  split <;> rfl

omit hl h0 in
theorem tolerance_of_mem_legs : ∀ leg ∈ s.legs p, leg.goal.tolerance = s.tolerance := by
  intro leg hleg
  rw [legs] at hleg
  split at hleg
  · rw [bothPhasesLegs] at hleg
    split at hleg
    · rw [List.mem_singleton.mp hleg]
      rfl
    · rcases List.mem_cons.mp hleg with rfl | hleg
      · rfl
      · rw [List.mem_singleton.mp hleg]
        rfl
  · rw [List.mem_singleton.mp hleg, tolerance_directLeg]

/-- Without both phases an exact solve that stops leaves artificials at zero. -/
theorem directLeg_atMost_zero (he : (s.directLeg p).IsExact) (hfrom : s.bothPhasesFrom? p = none)
    (hstop : (s.directLeg p).stage.ending ≠ .outOfPivots) :
    (s.directLeg p).stage.final.ArtificialsAtMost 0 := by
  refine he.artificials ?_
  rw [tolerance_directLeg]
  exact atMost_directLeg hfrom
    (isFormOf_directLeg hl h0 fun d hd => (he.pivots d hd).toKeepsRegion) hstop

/-- An exact solve that runs both phases is correct; any other ends with one exact stage. -/
theorem IsExact.isCorrect_or_direct (hex : s.IsExact p) : (s.outcome p).IsCorrect p ∨
    s.bothPhasesFrom? p = none ∧ s.outcome p = (s.directLeg p).outcome p ∧
      (s.directLeg p).IsExact := by
  obtain ⟨hlegs, hdrive⟩ := hex
  rw [SimplexSettings.legs] at hlegs
  rw [outcome]
  cases hfrom : s.bothPhasesFrom? p with
  | some used =>
    simp only [hfrom] at hlegs ⊢
    exact Or.inl (isCorrect_bothPhases hl h0 hlegs fun hstatus d hd =>
      hdrive d (mem_driveOuts_iff.mpr ⟨used, hfrom, hstatus, hd⟩))
  | none =>
    simp only [hfrom, List.forall_mem_singleton] at hlegs ⊢
    exact Or.inr ⟨trivial, trivial, hlegs⟩

/-- An exact solve of either discipline is right about an optimum. -/
theorem IsExact.optimal (hex : s.IsExact p) (hopt : (s.outcome p).status = .optimal) :
    p.Optimal (s.outcome p).assignment := by
  rcases hex.isCorrect_or_direct hl h0 with hcorrect | ⟨hfrom, houtcome, hleg⟩
  · exact hcorrect.optimal hopt
  · rw [houtcome] at hopt ⊢
    refine (optimizes_directLeg hl).optimal hl (tolerance_directLeg.symm ▸ h0) hleg
      (directLeg_atMost_zero hl h0 hleg hfrom fun hout => ?_) hopt
    cases hout.symm.trans (Leg.outcome_of_optimal hopt).1

/-- An exact solve of either discipline is right about infeasibility. -/
theorem IsExact.infeasible (hex : s.IsExact p) (hinf : (s.outcome p).status = .infeasible) :
    p.Infeasible := by
  rcases hex.isCorrect_or_direct hl h0 with hcorrect | ⟨-, houtcome, -⟩
  · exact hcorrect.infeasible hinf
  · rw [houtcome] at hinf
    exact absurd hinf Leg.status_ne_infeasible

omit hl h0 in
theorem isRechecked_eq_false_of_direct (hd : s.discipline = .bigM)
    (hfrom : s.bothPhasesFrom? p = none) : s.isRechecked p = false := by
  rw [bothPhasesFrom?, hd] at hfrom
  cases hre : s.isRechecked p with
  | false => rfl
  | true => simp [hre] at hfrom

/-- An exact solve is right that there is no bound, if a stage under the penalty spares the
artificials. -/
theorem IsExact.unbounded (hex : s.IsExact p) (hunb : (s.outcome p).status = .unbounded)
    (hray : s.discipline = .bigM → s.isRechecked p = false →
      (s.penaltyLeg p).stage.ending.SparesArtificials (s.penaltyLeg p).stage.final) :
    p.Unbounded := by
  rcases hex.isCorrect_or_direct hl h0 with hcorrect | ⟨hfrom, houtcome, hleg⟩
  · exact hcorrect.unbounded hunb
  · rw [houtcome] at hunb
    refine (optimizes_directLeg hl).unbounded hl (tolerance_directLeg.symm ▸ h0) hleg
      (directLeg_atMost_zero hl h0 hleg hfrom fun hout => ?_) ?_ hunb
    · obtain ⟨col, ratios, hend⟩ := Leg.status_eq_unbounded hunb
      cases hout.symm.trans hend
    · cases hd : s.discipline with
      | bigM =>
        simp only [directLeg, hd]
        exact hray hd (isRechecked_eq_false_of_direct hd hfrom)
      | twoPhase =>
        have hform := isFormOf_directLeg hl h0 fun d hmem => (hleg.pivots d hmem).toKeepsRegion
        exact Ending.sparesArtificials_of_forall (fun j => (hform.isArtificial_eq j).trans
          (isArtificial_eq_false_of_twoPhase hfrom hd j)) _

end SimplexSettings

end LinearProgram
