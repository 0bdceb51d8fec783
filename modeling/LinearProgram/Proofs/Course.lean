import LinearProgram.Simplex.Solve

/-! # The course of a solve

What a solve does, apart from what it records: the stages that it runs and the rows in which it
replaces artificials. A recorded solve has the outcome of its course.
-/

namespace LinearProgram

/-- What a solve comes to. -/
structure Outcome (α : Type) where
  status : Status
  assignment : List α
  optimalValue : Option α
  solutionType : Option Multiplicity
  degenerate : Bool
  deriving DecidableEq, Repr

variable {α : Type} [Scalar α]

def SimplexSolution.outcome (solution : SimplexSolution α) : Outcome α :=
  ⟨solution.status, solution.assignment, solution.optimalValue, solution.solutionType,
    solution.degenerate⟩

namespace Outcome

/-- The outcome without an optimum. -/
def stop (status : Status) : Outcome α := ⟨status, [], none, none, false⟩

/-- The outcome at an optimal tableau. -/
def finish (tolerance : α) (p : Problem α) (t : Tableau α) : Outcome α :=
  ⟨.optimal, t.assignment, some (p.objective.evaluate t.assignment),
    some (if t.hasTie tolerance then .multiple else .unique), t.isDegenerate tolerance⟩

end Outcome

/-- The outcome of a solve that ends with this stage. -/
def Leg.outcome (leg : Leg α) (p : Problem α) : Outcome α :=
  match leg.stage.ending with
  | .optimal => .finish leg.goal.tolerance p leg.stage.final
  | .unbounded .. => .stop .unbounded
  | .outOfPivots => .stop .iterationLimit

theorem Leg.outcome_cases (leg : Leg α) (p : Problem α) :
    (∃ status, leg.outcome p = .stop status) ∨
      leg.outcome p = .finish leg.goal.tolerance p leg.stage.final := by
  rw [outcome]
  split
  · exact Or.inr rfl
  · exact Or.inl ⟨_, rfl⟩
  · exact Or.inl ⟨_, rfl⟩

theorem Leg.outcome_of_optimal {leg : Leg α} {p : Problem α}
    (h : (leg.outcome p).status = .optimal) :
    leg.stage.ending = .optimal ∧ (leg.outcome p).assignment = leg.stage.final.assignment := by
  rw [outcome] at h ⊢
  split at h
  · next he => exact ⟨he, rfl⟩
  · cases h
  · cases h

namespace SimplexSettings

/-- The status with which the first phase stops a solve, none when it ends with a feasible basis. -/
def phaseOneStatus (s : SimplexSettings α) (p : Problem α) (used : Nat) : Option Status :=
  let stage := (s.phaseOneLeg p used).stage
  match stage.ending with
  | .unbounded .. => some .infeasible
  | .outOfPivots => some .iterationLimit
  | .optimal =>
    if stage.final.hasArtificialPart s.tolerance then some .infeasible else none

/-- What becomes of the artificials that the first phase leaves basic. -/
def driveOutPass (s : SimplexSettings α) (p : Problem α) (used : Nat) : List (DriveOut α) :=
  let t := (s.phaseOneLeg p used).stage.final
  t.driveOut s.tolerance (List.range t.rows.length)

/-- The basis from which the second phase starts. -/
def feasibleBasis (s : SimplexSettings α) (p : Problem α) (used : Nat) : Tableau α :=
  DriveOut.final (s.phaseOneLeg p used).stage.final (s.driveOutPass p used)

/-- The second phase behind the first. -/
def secondLeg (s : SimplexSettings α) (p : Problem α) (used : Nat) : Leg α :=
  s.phaseTwoLeg p (s.feasibleBasis p used)
    (used + (s.phaseOneLeg p used).stage.pivots.length)

/-- The outcome of both phases after some pivots. -/
def bothPhasesOutcome (s : SimplexSettings α) (p : Problem α) (used : Nat) : Outcome α :=
  match s.phaseOneStatus p used with
  | some status => .stop status
  | none => (s.secondLeg p used).outcome p

/-- Whether the penalty stops with a positive artificial. -/
def isRechecked (s : SimplexSettings α) (p : Problem α) : Bool :=
  match (s.penaltyLeg p).stage.ending with
  | .outOfPivots => false
  | _ => ((s.penaltyLeg p).stage.final.positiveArtificial? s.tolerance).isSome

/-- The pivots before both phases, if they are run. -/
def bothPhasesFrom? (s : SimplexSettings α) (p : Problem α) : Option Nat :=
  match s.discipline with
  | .bigM => if s.isRechecked p then some (s.penaltyLeg p).stage.pivots.length else none
  | .twoPhase => if 0 < p.standardForm.count .artificial then some 0 else none

/-- The stage that ends a solve without both phases. -/
def directLeg (s : SimplexSettings α) (p : Problem α) : Leg α :=
  match s.discipline with
  | .bigM => s.penaltyLeg p
  | .twoPhase => s.phaseTwoLeg p p.standardForm 0

def outcome (s : SimplexSettings α) (p : Problem α) : Outcome α :=
  match s.bothPhasesFrom? p with
  | some used => s.bothPhasesOutcome p used
  | none => (s.directLeg p).outcome p

/-- The stages of both phases. -/
def bothPhasesLegs (s : SimplexSettings α) (p : Problem α) (used : Nat) : List (Leg α) :=
  s.phaseOneLeg p used ::
    match s.phaseOneStatus p used with
    | some _ => []
    | none => [s.secondLeg p used]

/-- The stages that lead to the outcome. A penalty stage with a recheck is not among them, since
both phases start afresh. -/
def legs (s : SimplexSettings α) (p : Problem α) : List (Leg α) :=
  match s.bothPhasesFrom? p with
  | some used => s.bothPhasesLegs p used
  | none => [s.directLeg p]

/-- The stage with which a solve ends. -/
def lastLeg (s : SimplexSettings α) (p : Problem α) : Leg α :=
  match s.bothPhasesFrom? p with
  | some used =>
    match s.phaseOneStatus p used with
    | some _ => s.phaseOneLeg p used
    | none => s.secondLeg p used
  | none => s.directLeg p

/-- What becomes of the artificials that are basic when a first phase ends well. -/
def driveOuts (s : SimplexSettings α) (p : Problem α) : List (DriveOut α) :=
  match s.bothPhasesFrom? p with
  | some used =>
    match s.phaseOneStatus p used with
    | some _ => []
    | none => s.driveOutPass p used
  | none => []

theorem mem_driveOuts_iff {s : SimplexSettings α} {p : Problem α} {d : DriveOut α} :
    d ∈ s.driveOuts p ↔ ∃ used, s.bothPhasesFrom? p = some used ∧
      s.phaseOneStatus p used = none ∧ d ∈ s.driveOutPass p used := by
  rw [driveOuts]
  cases s.bothPhasesFrom? p with
  | none => simp
  | some used => cases hstatus : s.phaseOneStatus p used <;> simp [hstatus]

section LastLeg

variable {s : SimplexSettings α} {p : Problem α} {used : Nat}

theorem lastLeg_of_stopped {status : Status} (hused : s.bothPhasesFrom? p = some used)
    (h : s.phaseOneStatus p used = some status) : s.lastLeg p = s.phaseOneLeg p used := by
  simp only [lastLeg, hused, h]

theorem lastLeg_of_feasible (hused : s.bothPhasesFrom? p = some used)
    (h : s.phaseOneStatus p used = none) : s.lastLeg p = s.secondLeg p used := by
  simp only [lastLeg, hused, h]

theorem lastLeg_of_direct (h : s.bothPhasesFrom? p = none) : s.lastLeg p = s.directLeg p := by
  simp only [lastLeg, h]

theorem eq_of_phaseOneStatus {status : Status} (h : s.phaseOneStatus p used = some status) :
    status = .infeasible ∨ status = .iterationLimit := by
  simp only [phaseOneStatus] at h
  split at h
  · exact Or.inl (Option.some.inj h).symm
  · exact Or.inr (Option.some.inj h).symm
  · split at h
    · exact Or.inl (Option.some.inj h).symm
    · cases h

/-- Both phases end with an optimum only if the first one does not stop the solve. -/
theorem phaseOneStatus_of_optimal (h : (s.bothPhasesOutcome p used).status = .optimal) :
    s.phaseOneStatus p used = none := by
  rw [bothPhasesOutcome] at h
  cases hstatus : s.phaseOneStatus p used with
  | some status =>
    simp only [hstatus, Outcome.stop] at h
    subst h
    rcases eq_of_phaseOneStatus hstatus with h | h <;> cases h
  | none => rfl

/-- The last stage brings the optimum. -/
theorem outcome_lastLeg (h : (s.outcome p).status = .optimal) :
    (s.lastLeg p).outcome p = s.outcome p := by
  rw [outcome] at h ⊢
  cases hfrom : s.bothPhasesFrom? p with
  | some used =>
    simp only [hfrom] at h ⊢
    have hstatus := phaseOneStatus_of_optimal h
    rw [lastLeg_of_feasible hfrom hstatus, bothPhasesOutcome, hstatus]
  | none => rw [lastLeg_of_direct hfrom]

/-- There is no optimum, or the answer is read off the tableau at which the last stage ends. -/
theorem outcome_cases (s : SimplexSettings α) (p : Problem α) :
    (∃ status, s.outcome p = .stop status) ∨
      s.outcome p = .finish (s.lastLeg p).goal.tolerance p (s.lastLeg p).stage.final := by
  rw [outcome]
  cases hfrom : s.bothPhasesFrom? p with
  | some used =>
    simp only [bothPhasesOutcome]
    cases hstatus : s.phaseOneStatus p used with
    | some status => exact Or.inl ⟨status, rfl⟩
    | none =>
      rw [lastLeg_of_feasible hfrom hstatus]
      exact Leg.outcome_cases _ p
  | none =>
    rw [lastLeg_of_direct hfrom]
    exact Leg.outcome_cases _ p

end LastLeg

section FirstPhase

variable {s s' : SimplexSettings α} {p p' : Problem α} {used used' : Nat}
  (htolerance : s'.tolerance = s.tolerance)
  (hstage : (s'.phaseOneLeg p' used').stage = (s.phaseOneLeg p used).stage)

include htolerance hstage

/-- What comes of a first phase depends on its stage only. -/
theorem phaseOneStatus_congr : s'.phaseOneStatus p' used' = s.phaseOneStatus p used := by
  rw [phaseOneStatus, phaseOneStatus, hstage, htolerance]

theorem driveOutPass_congr : s'.driveOutPass p' used' = s.driveOutPass p used := by
  rw [driveOutPass, driveOutPass, hstage, htolerance]

theorem feasibleBasis_congr : s'.feasibleBasis p' used' = s.feasibleBasis p used := by
  rw [feasibleBasis, feasibleBasis, hstage, driveOutPass_congr htolerance hstage]

end FirstPhase

end SimplexSettings

namespace Record

omit [Scalar α] in
@[simp] theorem iterations_note (r : Record α) (e : Event α) :
    (r.note e).iterations = r.iterations := rfl

omit [Scalar α] in
@[simp] theorem iterations_keep (r : Record α) (snapshot : Snapshot α) :
    (r.keep snapshot).iterations = r.iterations := rfl

omit [Scalar α] in
@[simp] theorem iterations_write (r : Record α) (e : Log.Entry α) :
    (r.write e).iterations = r.iterations := rfl

@[simp] theorem iterations_openStage (phase : Option Nat) (description : String) (t : Tableau α)
    (r : Record α) : (r.openStage phase description t).iterations = r.iterations := rfl

@[simp] theorem iterations_close (limit : Nat) (stage : Stage α) (r : Record α) :
    (r.close limit stage).iterations = r.iterations := by
  rw [close]
  split <;> rfl

@[simp] theorem iterations_foldl_addPivot (phase : Option Nat) (pivots : List (Pivot α))
    (r : Record α) :
    (pivots.foldl (addPivot phase) r).iterations = r.iterations + pivots.length := by
  induction pivots generalizing r with
  | nil => rfl
  | cons d pivots ih =>
    rw [List.foldl_cons, ih, List.length_cons]
    simp only [addPivot]
    omega

@[simp] theorem iterations_addStage (phase : Option Nat) (limit : Nat) (stage : Stage α)
    (r : Record α) : (r.addStage phase limit stage).iterations =
      r.iterations + stage.pivots.length := by
  rw [addStage, iterations_close, iterations_foldl_addPivot]

@[simp] theorem iterations_foldl_addDriveOut (pass : List (DriveOut α)) (r : Record α) :
    (pass.foldl addDriveOut r).iterations = r.iterations := by
  induction pass generalizing r with
  | nil => rfl
  | cons d pass ih =>
    rw [List.foldl_cons, ih, addDriveOut, iterations_note]
    split <;> rfl

end Record

namespace SimplexSettings

variable (s : SimplexSettings α) (p : Problem α) (r : Record α)

theorem phaseOne_eq : ∃ r' : Record α,
    r'.iterations = r.iterations + (s.phaseOneLeg p r.iterations).stage.pivots.length ∧
    s.phaseOne p r = match s.phaseOneStatus p r.iterations with
      | some status => .stopped status r'
      | none => .feasible (s.feasibleBasis p r.iterations) r' := by
  simp only [phaseOne, phaseOneStatus]
  cases h : (s.phaseOneLeg p r.iterations).stage.ending with
  | unbounded column ratios => exact ⟨_, by simp, rfl⟩
  | outOfPivots => exact ⟨_, by simp, rfl⟩
  | optimal =>
    simp only
    split
    · exact ⟨_, by simp, rfl⟩
    · exact ⟨_, by simp, rfl⟩

theorem outcome_phaseTwo (t : Tableau α) :
    (s.phaseTwo p t r).solution.outcome = (s.phaseTwoLeg p t r.iterations).outcome p := by
  simp only [phaseTwo, Leg.outcome]
  cases (s.phaseTwoLeg p t r.iterations).stage.ending <;> rfl

theorem outcome_bothPhases :
    (s.bothPhases p r).solution.outcome = s.bothPhasesOutcome p r.iterations := by
  obtain ⟨r', hr', h⟩ := phaseOne_eq s p r
  rw [bothPhases, h, bothPhasesOutcome]
  cases s.phaseOneStatus p r.iterations with
  | some status => rfl
  | none =>
    simp only
    rw [outcome_phaseTwo, Record.iterations_note, hr', secondLeg]

theorem isRechecked_iff : s.isRechecked p = true ↔ (s.penaltyLeg p).stage.ending ≠ .outOfPivots ∧
    ((s.penaltyLeg p).stage.final.positiveArtificial? s.tolerance).isSome := by
  rw [isRechecked]
  split
  · next h => simp [h]
  · next h => exact ⟨fun hsome => ⟨h, hsome⟩, And.right⟩

theorem outcome_penalized (hr : r.iterations = 0) : (s.penalized p r).solution.outcome =
    if s.isRechecked p then s.bothPhasesOutcome p (s.penaltyLeg p).stage.pivots.length
    else (s.penaltyLeg p).outcome p := by
  simp only [penalized]
  split
  · next h =>
    rw [if_neg fun hre => ((s.isRechecked_iff p).mp hre).1 h, Leg.outcome, h]
    rfl
  · next row h hne =>
    rw [outcome_bothPhases, if_pos ((s.isRechecked_iff p).mpr ⟨hne, by rw [h]; rfl⟩)]
    simp [hr]
  · next h h' =>
    rw [if_neg fun hre => by simpa [h'] using ((s.isRechecked_iff p).mp hre).2, Leg.outcome, h]
    rfl
  · next h h' =>
    rw [if_neg fun hre => by simpa [h'] using ((s.isRechecked_iff p).mp hre).2, Leg.outcome, h]
    rfl

/-- A recorded solve has the outcome of its course. -/
theorem outcome_run : (s.run p).solution.outcome = s.outcome p := by
  rw [run, outcome, bothPhasesFrom?, directLeg]
  cases s.discipline with
  | bigM =>
    simp only
    rw [outcome_penalized s p _ rfl]
    split <;> rfl
  | twoPhase =>
    simp only
    split
    · exact outcome_bothPhases s p _
    · exact outcome_phaseTwo s p _ _

theorem status_run : (s.run p).solution.status = (s.outcome p).status :=
  congrArg Outcome.status (s.outcome_run p)

theorem assignment_run : (s.run p).solution.assignment = (s.outcome p).assignment :=
  congrArg Outcome.assignment (s.outcome_run p)

theorem optimalValue_run : (s.run p).solution.optimalValue = (s.outcome p).optimalValue :=
  congrArg Outcome.optimalValue (s.outcome_run p)

theorem solutionType_run : (s.run p).solution.solutionType = (s.outcome p).solutionType :=
  congrArg Outcome.solutionType (s.outcome_run p)

variable {s p}

theorem solve_of_validate (h : p.validate = .ok ()) : s.solve p = .ok (s.run p).solution := by
  rw [solve, h]
  rfl

theorem validate_of_solve {solution : SimplexSolution α} (h : s.solve p = .ok solution) :
    p.validate = .ok () ∧ solution = (s.run p).solution := by
  cases hv : p.validate with
  | error e =>
    rw [solve, hv] at h
    cases h
  | ok u =>
    rw [solve_of_validate hv] at h
    exact ⟨rfl, (Except.ok.inj h).symm⟩

end SimplexSettings

end LinearProgram
