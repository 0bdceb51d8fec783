import LinearProgram.Proofs.Moves
import LinearProgram.Proofs.RecordedSystem

/-! # Caps

A cap on the pivots only cuts a solve short. Below the cap a larger one changes nothing; at the cap
the larger one goes on behind the same moves. One budget is shared by the penalty stage and by both
phases, so what is left of it is followed from stage to stage.
-/

namespace LinearProgram

variable {α : Type} [Scalar α]

/-- Moves and their outcome with `budget` pivots left before the cap, beside those under a larger
cap: both are the same, or the first stop at the cap and the others go on. -/
inductive Truncates (budget limit : ℕ) :
    List (Move α) → Outcome α → List (Move α) → Outcome α → Prop where
  | same {moves : List (Move α)} {outcome : Outcome α} : outcome.status ≠ .iterationLimit →
      moves.countP Move.isPivot ≤ budget → Truncates budget limit moves outcome moves outcome
  | cut {before moves : List (Move α)} {outcome : Outcome α} : before <+: moves →
      before.countP Move.isPivot = budget →
      Truncates budget limit (before ++ [.outOfPivots limit]) (.stop .iterationLimit) moves outcome

omit [Scalar α] in
theorem Truncates.prepend {budget total limit : ℕ} {moves longer : List (Move α)}
    {outcome other : Outcome α} (h : Truncates budget limit moves outcome longer other)
    (first : List (Move α)) (hcount : first.countP Move.isPivot + budget = total) :
    Truncates total limit (first ++ moves) outcome (first ++ longer) other := by
  cases h with
  | same hstatus hle =>
    refine .same hstatus ?_
    rw [List.countP_append]
    omega
  | cut hbefore heq =>
    rw [← List.append_assoc]
    refine .cut ((List.prefix_append_right_inj first).mpr hbefore) ?_
    rw [List.countP_append]
    omega

namespace Truncates

variable {budget limit : ℕ} {moves longer : List (Move α)} {outcome other : Outcome α}
  (h : Truncates budget limit moves outcome longer other) (story : Story α)

include h

theorem iterations_le : (moves.foldl Story.make story).iterations ≤ story.iterations + budget := by
  rw [Story.iterations_foldl_make]
  cases h with
  | same _ hle => exact Nat.add_le_add_left hle _
  | cut _ heq => rw [List.countP_append, heq]; rfl

omit [Scalar α] in
theorem eq_of_status_ne (hstatus : outcome.status ≠ .iterationLimit) :
    longer = moves ∧ other = outcome := by
  cases h with
  | same => exact ⟨rfl, rfl⟩
  | cut => exact absurd rfl hstatus

/-- What the moves up to the cap show is shown under a larger cap as well. -/
theorem shows_prefix_of_status_eq (hstatus : outcome.status = .iterationLimit) :
    (moves.foldl Story.make story).iterations = story.iterations + budget ∧
      (moves.foldl Story.make story).tableaus <+: (longer.foldl Story.make story).tableaus ∧
      ∃ before, (moves.foldl Story.make story).trace = before ++ [.iterationLimit limit] ∧
        before <+: (longer.foldl Story.make story).trace := by
  cases h with
  | same hne => exact absurd hstatus hne
  | @cut before _ _ hbefore heq =>
    obtain ⟨rest, rfl⟩ := hbefore
    obtain ⟨htrace, htableaus⟩ := (before.foldl Story.make story).prefix_foldl_make rest
    refine ⟨by rw [Story.iterations_foldl_make, List.countP_append, heq]; rfl, ?_, ?_⟩
    · rw [List.foldl_append, List.foldl_append]
      simpa [Story.make, Move.snapshots] using htableaus
    · rw [List.foldl_append, List.foldl_append]
      exact ⟨_, rfl, htrace⟩

end Truncates

namespace Leg

variable (leg : Leg α) {larger : ℕ}

/-- The stage with another budget. -/
def withBudget (budget : ℕ) : Leg α := { leg with budget := budget }

theorem status_outcome_ne (p : Problem α) (h : leg.stage.ending ≠ .outOfPivots) :
    (leg.outcome p).status ≠ .iterationLimit := by
  rw [outcome]
  cases hend : leg.stage.ending with
  | outOfPivots => exact absurd hend h
  | optimal => rintro ⟨⟩
  | unbounded column ratios => rintro ⟨⟩

/-- A stage is cut off itself, or what follows it goes on with the rest of the budget. -/
theorem truncates (hle : leg.budget ≤ larger) (phase : Option ℕ) (description : String)
    {limit other : ℕ} {rest longer : List (Move α)} {outcome outcome' : Outcome α}
    (hcut : leg.stage.ending = .outOfPivots → rest = [] ∧ outcome = .stop .iterationLimit)
    (hgo : leg.stage.ending ≠ .outOfPivots →
      Truncates (leg.budget - leg.stage.pivots.length) limit rest outcome longer outcome') :
    Truncates leg.budget limit (leg.moves phase description limit ++ rest) outcome
      ((leg.withBudget larger).moves phase description other ++ longer) outcome' := by
  by_cases hend : leg.stage.ending = .outOfPivots
  · obtain ⟨rfl, rfl⟩ := hcut hend
    -- Under the larger budget the stage begins with these pivots, whatever follows them.
    have hclosing : Move.closing limit leg.stage = .outOfPivots limit := by
      rw [Move.closing, hend]
    have hpivots : leg.stage.pivots <+: (leg.withBudget larger).stage.pivots :=
      Goal.pivots_run_isPrefix _ hle _
    rw [moves, moves, hclosing, List.append_nil, ← List.cons_append]
    refine .cut ?_ ?_
    · rw [List.cons_append, List.append_assoc]
      exact (List.prefix_cons_inj _).mpr ((hpivots.map _).trans (List.prefix_append _ _))
    · rw [List.countP_cons_of_neg Bool.false_ne_true, countP_pivots]
      exact Goal.length_pivots_run_of_outOfPivots hend
  · have hlength : leg.stage.pivots.length ≤ leg.budget := Goal.length_pivots_run_le _ _ _
    have hmoves : (leg.withBudget larger).moves phase description other =
        leg.moves phase description limit := by
      rw [moves, moves, withBudget, stage_mono hle hend, Move.closing_of_ne hend other]
      rfl
    rw [hmoves]
    refine (hgo hend).prepend _ ?_
    rw [countP_moves]
    omega

/-- A stage that has come to its end concludes the same under a larger budget. -/
theorem truncates_conclusion (hle : leg.budget ≤ larger) (p : Problem α)
    (h : leg.stage.ending ≠ .outOfPivots) (budget limit : ℕ) :
    Truncates budget limit (leg.conclusion p) (leg.outcome p)
      ((leg.withBudget larger).conclusion p) ((leg.withBudget larger).outcome p) := by
  have hstage : (leg.withBudget larger).stage = leg.stage := stage_mono hle h
  have hconclusion : (leg.withBudget larger).conclusion p = leg.conclusion p := by
    rw [conclusion, conclusion, hstage]
  have houtcome : (leg.withBudget larger).outcome p = leg.outcome p := by
    rw [outcome, outcome, hstage]
    rfl
  rw [hconclusion, houtcome]
  exact .same (leg.status_outcome_ne p h) ((leg.countP_conclusion p).trans_le (Nat.zero_le _))

end Leg

namespace SimplexSettings

variable {s : SimplexSettings α} {p : Problem α} {cap : Option ℕ} {used : ℕ}

/-- The settings with another cap. -/
def withCap (s : SimplexSettings α) (cap : Option ℕ) : SimplexSettings α :=
  { s with maxIterations := cap }

theorem ending_of_phaseOneStatus (h : s.phaseOneStatus p used = some .iterationLimit) :
    (s.phaseOneLeg p used).stage.ending = .outOfPivots := by
  rw [phaseOneStatus] at h
  cases hend : (s.phaseOneLeg p used).stage.ending with
  | outOfPivots => rfl
  | unbounded column ratios => simp [hend] at h
  | optimal => simp [hend] at h

theorem countP_phaseOneRemarks : (s.phaseOneRemarks p used).countP Move.isPivot = 0 := by
  refine List.countP_eq_zero.mpr fun move h => ?_
  obtain ⟨w, rfl⟩ | ⟨reason, rfl⟩ := of_mem_phaseOneRemarks h <;> exact Bool.false_ne_true

theorem outcome_of_bigM (hd : s.discipline = .bigM) : s.outcome p =
    if s.isRechecked p then s.bothPhasesOutcome p (s.penaltyLeg p).stage.pivots.length
    else (s.penaltyLeg p).outcome p := by
  rw [outcome, bothPhasesFrom?, directLeg, hd]
  cases s.isRechecked p <;> rfl

section Cap

variable (h : s.limit p ≤ (s.withCap cap).limit p)

include h

theorem truncates_phaseTwo (t : Tableau α) (used : ℕ) :
    Truncates (s.limit p - used) (s.limit p) (s.phaseTwoMoves p t used)
      ((s.phaseTwoLeg p t used).outcome p) ((s.withCap cap).phaseTwoMoves p t used)
      (((s.withCap cap).phaseTwoLeg p t used).outcome p) := by
  have hle : (s.phaseTwoLeg p t used).budget ≤ (s.withCap cap).limit p - used :=
    Nat.sub_le_sub_right h used
  refine (s.phaseTwoLeg p t used).truncates hle (some 2) _ (fun hend => ?_) fun hend =>
    Leg.truncates_conclusion _ hle p hend _ _
  rw [Leg.conclusion, Leg.outcome, hend]
  exact ⟨rfl, rfl⟩

theorem truncates_bothPhases (used : ℕ) :
    Truncates (s.limit p - used) (s.limit p) (s.bothPhasesMoves p used)
      (s.bothPhasesOutcome p used) ((s.withCap cap).bothPhasesMoves p used)
      ((s.withCap cap).bothPhasesOutcome p used) := by
  have hle : (s.phaseOneLeg p used).budget ≤ (s.withCap cap).limit p - used :=
    Nat.sub_le_sub_right h used
  refine Truncates.prepend ?_ [.note (.phaseStarted 1)] (Nat.zero_add _)
  refine (s.phaseOneLeg p used).truncates hle (some 1) _ (fun hend => ?_) fun hend => ?_
  · simp [phaseOneRemarks, afterPhaseOne, bothPhasesOutcome, phaseOneStatus, hend]
  -- The first phase is over before the cap, so only what is left of the budget differs behind it.
  have hstage : ((s.withCap cap).phaseOneLeg p used).stage = (s.phaseOneLeg p used).stage :=
    Leg.stage_mono hle hend
  have hlength : (s.phaseOneLeg p used).stage.pivots.length ≤ s.limit p - used :=
    Goal.length_pivots_run_le _ _ _
  have htolerance : (s.withCap cap).tolerance = s.tolerance := rfl
  have hpass := driveOutPass_congr htolerance hstage
  have hbasis := feasibleBasis_congr htolerance hstage
  rw [phaseOneRemarks_congr htolerance hstage, afterPhaseOne, afterPhaseOne, bothPhasesOutcome,
    bothPhasesOutcome, phaseOneStatus_congr htolerance hstage]
  refine Truncates.prepend ?_ _ (by rw [countP_phaseOneRemarks, Nat.zero_add])
  cases hcase : s.phaseOneStatus p used with
  | some status =>
    refine .same ?_ (Nat.zero_le _)
    rintro rfl
    exact hend (ending_of_phaseOneStatus hcase)
  | none =>
    simp only [secondLeg, hpass, hbasis, hstage]
    have hsecond := truncates_phaseTwo h (s.feasibleBasis p used)
      (used + (s.phaseOneLeg p used).stage.pivots.length)
    rw [← Nat.sub_sub] at hsecond
    refine (hsecond.prepend [.note (.phaseStarted 2)] (Nat.zero_add _)).prepend _ ?_
    rw [DriveOut.countP_moves, Nat.zero_add]
    rfl

theorem truncates_penalized (hd : s.discipline = .bigM) :
    Truncates (s.limit p) (s.limit p)
      ((s.penaltyLeg p).moves none "Initial tableau" (s.limit p) ++ s.afterPenalty p)
      (s.outcome p)
      (((s.withCap cap).penaltyLeg p).moves none "Initial tableau" ((s.withCap cap).limit p) ++
        (s.withCap cap).afterPenalty p)
      ((s.withCap cap).outcome p) := by
  refine (s.penaltyLeg p).truncates h none _ (fun hend => ?_) fun hend => ?_
  · rw [outcome_of_bigM hd, isRechecked, afterPenalty, Leg.outcome, hend]
    exact ⟨rfl, rfl⟩
  have hstage : ((s.withCap cap).penaltyLeg p).stage = (s.penaltyLeg p).stage :=
    Leg.stage_mono h hend
  have hre : (s.withCap cap).isRechecked p = s.isRechecked p := by
    rw [isRechecked, isRechecked, hstage]
    rfl
  rw [outcome_of_bigM hd, outcome_of_bigM (s := s.withCap cap) hd, hre, hstage]
  cases hrow : (s.penaltyLeg p).stage.final.positiveArtificial? s.tolerance with
  | none =>
    have hnot : s.isRechecked p = false := by rw [isRechecked, hrow]; split <;> rfl
    rw [afterPenalty_of_none hrow, afterPenalty_of_none (s := s.withCap cap) (hstage ▸ hrow), hnot]
    exact (s.penaltyLeg p).truncates_conclusion h p hend _ _
  | some row =>
    have hyes : s.isRechecked p = true :=
      (s.isRechecked_iff p).mpr ⟨hend, by rw [hrow]; rfl⟩
    rw [afterPenalty_of_some hend hrow,
      afterPenalty_of_some (s := s.withCap cap) (hstage ▸ hend) (hstage ▸ hrow), hyes, hstage]
    exact (truncates_bothPhases h _).prepend [.note _] (Nat.zero_add _)

/-- A cap on the whole solve is passed from stage to stage. -/
theorem truncates_moves : Truncates (s.limit p) (s.limit p) (s.moves p) (s.outcome p)
    ((s.withCap cap).moves p) ((s.withCap cap).outcome p) := by
  have hdiscipline : (s.withCap cap).discipline = s.discipline := rfl
  rw [moves, moves, hdiscipline]
  cases hd : s.discipline with
  | bigM => exact truncates_penalized h hd
  | twoPhase =>
    rw [outcome, outcome, bothPhasesFrom?, bothPhasesFrom?, directLeg, directLeg, hdiscipline, hd]
    simp only
    split
    · exact truncates_bothPhases h 0
    · exact truncates_phaseTwo h _ 0

/-- A solve never exceeds its cap. If it ends below, it is the solve under any larger cap; if it is
stopped, it has used the cap up, and the larger cap goes on behind all that it shows. -/
theorem solve_withCap (hv : p.validate = .ok ()) : ∃ short long,
    s.solve p = .ok short ∧ (s.withCap cap).solve p = .ok long ∧
    short.iterations ≤ s.limit p ∧
    (short.status ≠ .iterationLimit → long = short) ∧
    (short.status = .iterationLimit → short.iterations = s.limit p ∧
      short.tableaus <+: long.tableaus ∧
      ∃ before, short.trace = before ++ [.iterationLimit (s.limit p)] ∧ before <+: long.trace) := by
  have hcut := truncates_moves h
  have hshort := s.story_run p
  have hlong : ((s.withCap cap).run p).solution.story =
      ((s.withCap cap).moves p).foldl Story.make (s.opening p).story := story_run _ p
  refine ⟨_, _, solve_of_validate hv, solve_of_validate hv, ?_, fun hne => ?_, fun heq => ?_⟩
  · have hle := hcut.iterations_le (s.opening p).story
    rw [← hshort] at hle
    exact hle.trans_eq (Nat.zero_add _)
  · rw [status_run] at hne
    obtain ⟨hmoves, houtcome⟩ := hcut.eq_of_status_ne hne
    refine SimplexSolution.ext_story ?_ (by rw [hlong, hshort, hmoves])
    rw [outcome_run, outcome_run, houtcome]
  · rw [status_run] at heq
    have hshows := hcut.shows_prefix_of_status_eq (s.opening p).story heq
    rw [← hshort, ← hlong] at hshows
    exact ⟨hshows.1.trans (Nat.zero_add _), hshows.2⟩

end Cap

/-- One pivot is used up by the penalty stage, so the first phase behind it is cut off. -/
theorem solve_withCap_crossingProblem : crossingProblem.validate = .ok () ∧
    ∃ short long : SimplexSolution ℚ,
      (⟨some 1, 0, .bigM, -1⟩ : SimplexSettings ℚ).solve crossingProblem = .ok short ∧
      (⟨some 2, 0, .bigM, -1⟩ : SimplexSettings ℚ).solve crossingProblem = .ok long ∧
      short.status = .iterationLimit ∧ long.status = .optimal ∧ short.iterations = 1 ∧
      short.tableaus.length = 3 ∧ long.tableaus.length = 6 ∧ short.tableaus <+: long.tableaus ∧
      ∃ before, short.trace = before ++ [.iterationLimit 1] ∧ before <+: long.trace := by
  have hv : crossingProblem.validate = .ok () := by decide +kernel
  have hcap : (⟨some 1, 0, .bigM, -1⟩ : SimplexSettings ℚ).limit crossingProblem ≤
      (withCap ⟨some 1, 0, .bigM, -1⟩ (some 2)).limit crossingProblem := by decide
  obtain ⟨short, long, hshort, hlong, -, -, hcut⟩ := solve_withCap hcap hv
  obtain ⟨-, rfl⟩ := validate_of_solve hshort
  obtain ⟨-, rfl⟩ := validate_of_solve hlong
  have hstatus : ((⟨some 1, 0, .bigM, -1⟩ : SimplexSettings ℚ).run
      crossingProblem).solution.status = .iterationLimit := by decide +kernel
  obtain ⟨hiterations, htableaus, htrace⟩ := hcut hstatus
  exact ⟨hv, _, _, hshort, hlong, hstatus, by decide +kernel, hiterations, by decide +kernel,
    by decide +kernel, htableaus, htrace⟩

end SimplexSettings

end LinearProgram
