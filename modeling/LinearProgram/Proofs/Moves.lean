import LinearProgram.Proofs.RecordInvariant

/-! # The moves of a solve

A solve makes one move after another: remarks, starts and endings of stages, pivots and replaced
artificials. A move only adds to what is shown, so two solves are compared by their moves.
-/

namespace LinearProgram

/-- One step of a solve that is shown. -/
inductive Move (α : Type) where
  | note (e : Event α)
  | start (phase : Option ℕ) (description : String) (t : Tableau α)
  | pivot (phase : Option ℕ) (d : Pivot α)
  | optimal
  | unbounded (final : Tableau α) (column : ℕ) (ratios : List (Option α))
  | outOfPivots (limit : ℕ)
  | driveOut (d : DriveOut α)

/-- What a solve shows of its moves. -/
structure Story (α : Type) where
  trace : Trace α
  tableaus : List (Snapshot α)
  iterations : ℕ

variable {α : Type}

def Record.story (r : Record α) : Story α := ⟨r.trace, r.tableaus, r.iterations⟩

def SimplexSolution.story (solution : SimplexSolution α) : Story α :=
  ⟨solution.trace, solution.tableaus, solution.iterations⟩

theorem SimplexSolution.ext_story [Scalar α] {a b : SimplexSolution α}
    (ho : a.outcome = b.outcome) (hs : a.story = b.story) : a = b := by
  obtain ⟨⟩ := a
  obtain ⟨⟩ := b
  simp only [outcome, story, Outcome.mk.injEq, Story.mk.injEq] at ho hs
  simp only [ho, hs]

namespace Move

def isPivot : Move α → Bool
  | pivot .. => true
  | _ => false

/-- The move that closes a stage. -/
def closing (limit : ℕ) (stage : Stage α) : Move α :=
  match stage.ending with
  | .optimal => .optimal
  | .unbounded column ratios => .unbounded stage.final column ratios
  | .outOfPivots => .outOfPivots limit

@[simp] theorem isPivot_closing (limit : ℕ) (stage : Stage α) :
    (closing limit stage).isPivot = false := by
  rw [closing]
  cases stage.ending <;> rfl

theorem closing_of_ne {limit : ℕ} {stage : Stage α} (h : stage.ending ≠ .outOfPivots)
    (other : ℕ) : closing other stage = closing limit stage := by
  rw [closing, closing]
  cases hend : stage.ending with
  | outOfPivots => exact absurd hend h
  | optimal => rfl
  | unbounded column ratios => rfl

variable [Scalar α]

/-- The events of a move after some pivots and snapshots. -/
def events (iterations tableaus : ℕ) : Move α → Trace α
  | note e => [e]
  | start .. => [.initialTableau tableaus]
  | pivot _ d =>
    [.enteringVariable (iterations + 1) d.column d.entering (d.before.reducedCost d.column),
      .ratioTest (iterations + 1) d.ratios (some d.row) (some d.leaving),
      Record.pivotEvent (iterations + 1) tableaus d]
  | optimal => [.optimalityReached iterations]
  | unbounded final column ratios =>
    [.enteringVariable (iterations + 1) column (final.columnName column)
        (final.reducedCost column),
      .ratioTest (iterations + 1) ratios none none, .unbounded (final.columnName column)]
  | outOfPivots limit => [.iterationLimit limit]
  | driveOut d => [.artificialDrivenOut d.row d.artificial (d.column.map d.after.columnName)]

/-- The snapshots of a move after some pivots. -/
def snapshots (iterations : ℕ) : Move α → List (Snapshot α)
  | start phase description t => [t.snapshot phase iterations description]
  | pivot phase d => [Record.pivotSnapshot phase (iterations + 1) d]
  | driveOut d => d.column.toList.map (d.snapshot iterations)
  | _ => []

theorem snapshots_closing (limit iterations : ℕ) (stage : Stage α) :
    (closing limit stage).snapshots iterations = [] := by
  rw [closing]
  cases stage.ending <;> rfl

end Move

variable [Scalar α]

namespace Story

def make (story : Story α) (m : Move α) : Story α :=
  ⟨story.trace ++ m.events story.iterations story.tableaus.length,
    story.tableaus ++ m.snapshots story.iterations, story.iterations + m.isPivot.toNat⟩

theorem iterations_foldl_make (moves : List (Move α)) (story : Story α) :
    (moves.foldl make story).iterations = story.iterations + moves.countP Move.isPivot := by
  induction moves generalizing story with
  | nil => rfl
  | cons m moves ih =>
    rw [List.foldl_cons, ih, List.countP_cons, make]
    cases m.isPivot <;> simp [Nat.add_assoc, Nat.add_comm]

/-- Moves only add to the trace and to the snapshots. -/
theorem prefix_foldl_make (moves : List (Move α)) (story : Story α) :
    story.trace <+: (moves.foldl make story).trace ∧
      story.tableaus <+: (moves.foldl make story).tableaus := by
  induction moves generalizing story with
  | nil => exact ⟨List.prefix_rfl, List.prefix_rfl⟩
  | cons m moves ih =>
    obtain ⟨htrace, htableaus⟩ := ih (story.make m)
    exact ⟨(List.prefix_append _ _).trans htrace, (List.prefix_append _ _).trans htableaus⟩

end Story

/-- The moves of a stage. -/
def Leg.moves (phase : Option ℕ) (description : String) (limit : ℕ) (leg : Leg α) :
    List (Move α) :=
  .start phase description leg.start ::
    (leg.stage.pivots.map (.pivot phase) ++ [.closing limit leg.stage])

/-- The last move of a solve that ends with this stage. -/
def Leg.conclusion (leg : Leg α) (p : Problem α) : List (Move α) :=
  let final := leg.stage.final
  match leg.stage.ending with
  | .optimal => [.note (.solution (p.objective.evaluate final.assignment) final.assignment
      (final.columnNames.take (final.count .decision)))]
  | _ => []

namespace Leg

variable (leg : Leg α)

theorem countP_pivots (phase : Option ℕ) :
    (leg.stage.pivots.map (Move.pivot phase)).countP Move.isPivot = leg.stage.pivots.length := by
  rw [List.countP_map]
  exact congrFun List.countP_true _

theorem countP_moves (phase : Option ℕ) (description : String) (limit : ℕ) :
    (leg.moves phase description limit).countP Move.isPivot = leg.stage.pivots.length := by
  rw [moves, List.countP_cons_of_neg Bool.false_ne_true, List.countP_append, countP_pivots,
    List.countP_cons_of_neg (by simp), List.countP_nil, Nat.add_zero]

theorem countP_conclusion (p : Problem α) : (leg.conclusion p).countP Move.isPivot = 0 := by
  rw [conclusion]
  cases leg.stage.ending <;> rfl

end Leg

omit [Scalar α] in
theorem DriveOut.countP_moves (pass : List (DriveOut α)) :
    (pass.map Move.driveOut).countP Move.isPivot = 0 := by
  rw [List.countP_map]
  exact congrFun List.countP_false pass

namespace Record

variable (r : Record α)

theorem story_addPivot (phase : Option ℕ) (d : Pivot α) :
    (r.addPivot phase d).story = r.story.make (.pivot phase d) := by
  simp only [story, addPivot, choose, note, List.append_assoc]
  rfl

theorem story_foldl_addPivot (phase : Option ℕ) (pivots : List (Pivot α)) :
    (pivots.foldl (addPivot phase) r).story =
      (pivots.map (.pivot phase)).foldl Story.make r.story := by
  rw [List.foldl_map]
  exact (List.foldl_hom story fun r d => (r.story_addPivot phase d).symm).symm

theorem story_close (limit : ℕ) (stage : Stage α) :
    (r.close limit stage).story = r.story.make (.closing limit stage) := by
  rw [close, Move.closing]
  cases stage.ending with
  | optimal => simp [story, Story.make, Move.events, Move.snapshots, Move.isPivot, note]
  | outOfPivots => simp [story, Story.make, Move.events, Move.snapshots, Move.isPivot, note, write]
  | unbounded column ratios =>
    simp [story, Story.make, Move.events, Move.snapshots, Move.isPivot, note, write, choose]

theorem story_addDriveOut (d : DriveOut α) :
    (r.addDriveOut d).story = r.story.make (.driveOut d) := by
  rw [addDriveOut]
  cases hcol : d.column <;>
    simp [story, Story.make, Move.events, Move.snapshots, Move.isPivot, note, keep, hcol]

theorem story_foldl_addDriveOut (pass : List (DriveOut α)) :
    (pass.foldl addDriveOut r).story = (pass.map .driveOut).foldl Story.make r.story := by
  rw [List.foldl_map]
  exact (List.foldl_hom story fun r d => (r.story_addDriveOut d).symm).symm

theorem story_note (e : Event α) : (r.note e).story = r.story.make (.note e) := by
  simp [story, Story.make, Move.events, Move.snapshots, Move.isPivot, note]

omit [Scalar α] in
@[simp] theorem story_write (entry : Log.Entry α) : (r.write entry).story = r.story := rfl

theorem story_stage (phase : Option ℕ) (description : String) (limit : ℕ) (leg : Leg α) :
    ((r.openStage phase description leg.start).addStage phase limit leg.stage).story =
      (leg.moves phase description limit).foldl Story.make r.story := by
  rw [addStage, story_close, story_foldl_addPivot, Leg.moves, List.foldl_cons, List.foldl_append]
  rfl

omit [Scalar α] in
@[simp] theorem story_stop (status : Status) : (r.stop status).solution.story = r.story := rfl

end Record

namespace SimplexSettings

variable (s : SimplexSettings α) (p : Problem α)

/-- The moves of a second phase from a feasible basis after some pivots. -/
def phaseTwoMoves (t : Tableau α) (used : ℕ) : List (Move α) :=
  (s.phaseTwoLeg p t used).moves (some 2) "Initial tableau, phase 2" (s.limit p) ++
    (s.phaseTwoLeg p t used).conclusion p

/-- The remarks on a first phase that ends at its optimum. -/
def phaseOneRemarks (used : ℕ) : List (Move α) :=
  let stage := (s.phaseOneLeg p used).stage
  let w := stage.final.objectiveValue
  match stage.ending with
  | .optimal =>
    .note (.phaseCompleted 1 w) ::
      if stage.final.hasArtificialPart s.tolerance then
        [.note (.infeasible ("phase 1 ended with W = " ++ Scalar.fixed 6 w ++ " > 0"))]
      else []
  | _ => []

variable {s p} in
theorem phaseOneRemarks_congr {s' : SimplexSettings α} {p' : Problem α} {used used' : ℕ}
    (htolerance : s'.tolerance = s.tolerance)
    (hstage : (s'.phaseOneLeg p' used').stage = (s.phaseOneLeg p used).stage) :
    s'.phaseOneRemarks p' used' = s.phaseOneRemarks p used := by
  rw [phaseOneRemarks, phaseOneRemarks, hstage, htolerance]

variable {s p} in
theorem of_mem_phaseOneRemarks {used : ℕ} {move : Move α} (h : move ∈ s.phaseOneRemarks p used) :
    (∃ w, move = .note (.phaseCompleted 1 w)) ∨ ∃ reason, move = .note (.infeasible reason) := by
  rw [phaseOneRemarks] at h
  cases hend : (s.phaseOneLeg p used).stage.ending with
  | unbounded column ratios => simp [hend] at h
  | outOfPivots => simp [hend] at h
  | optimal =>
    simp only [hend, List.mem_cons] at h
    obtain rfl | h := h
    · exact .inl ⟨_, rfl⟩
    · split at h
      · exact .inr ⟨_, List.mem_singleton.mp h⟩
      · cases h

/-- The moves behind a first phase that ends with a feasible basis. -/
def afterPhaseOne (used : ℕ) : List (Move α) :=
  match s.phaseOneStatus p used with
  | some _ => []
  | none =>
    (s.driveOutPass p used).map .driveOut ++ .note (.phaseStarted 2) ::
      s.phaseTwoMoves p (s.feasibleBasis p used)
        (used + (s.phaseOneLeg p used).stage.pivots.length)

/-- The moves of both phases after some pivots. -/
def bothPhasesMoves (used : ℕ) : List (Move α) :=
  .note (.phaseStarted 1) ::
    ((s.phaseOneLeg p used).moves (some 1) "Initial tableau, phase 1 (minimize W)" (s.limit p) ++
      (s.phaseOneRemarks p used ++ s.afterPhaseOne p used))

/-- The moves behind the penalty stage. -/
def afterPenalty : List (Move α) :=
  let stage := (s.penaltyLeg p).stage
  match stage.ending, stage.final.positiveArtificial? s.tolerance with
  | .outOfPivots, _ => []
  | _, some row =>
    .note (.penaltyRecheck (stage.final.basicName row) row.solution) ::
      s.bothPhasesMoves p stage.pivots.length
  | _, none => (s.penaltyLeg p).conclusion p

variable {s p} in
theorem afterPenalty_of_none
    (h : (s.penaltyLeg p).stage.final.positiveArtificial? s.tolerance = none) :
    s.afterPenalty p = (s.penaltyLeg p).conclusion p := by
  rw [afterPenalty, Leg.conclusion, h]
  cases (s.penaltyLeg p).stage.ending <;> rfl

variable {s p} in
theorem afterPenalty_of_some {row : BasicRow α}
    (hend : (s.penaltyLeg p).stage.ending ≠ .outOfPivots)
    (h : (s.penaltyLeg p).stage.final.positiveArtificial? s.tolerance = some row) :
    s.afterPenalty p =
      .note (.penaltyRecheck ((s.penaltyLeg p).stage.final.basicName row) row.solution) ::
        s.bothPhasesMoves p (s.penaltyLeg p).stage.pivots.length := by
  rw [afterPenalty, h]
  cases hcase : (s.penaltyLeg p).stage.ending with
  | outOfPivots => exact absurd hcase hend
  | optimal => rfl
  | unbounded column ratios => rfl

def moves : List (Move α) :=
  match s.discipline with
  | .bigM => (s.penaltyLeg p).moves none "Initial tableau" (s.limit p) ++ s.afterPenalty p
  | .twoPhase =>
    if 0 < p.standardForm.count .artificial then s.bothPhasesMoves p 0
    else s.phaseTwoMoves p p.standardForm 0

variable (r : Record α)

theorem story_phaseTwo (t : Tableau α) : (s.phaseTwo p t r).solution.story =
    (s.phaseTwoMoves p t r.iterations).foldl Story.make r.story := by
  have hstage := r.story_stage (some 2) "Initial tableau, phase 2" (s.limit p)
    (s.phaseTwoLeg p t r.iterations)
  rw [phaseTwoMoves, List.foldl_append, ← hstage, phaseTwo, Leg.conclusion]
  cases (s.phaseTwoLeg p t r.iterations).stage.ending with
  | optimal => exact Record.story_note _ _
  | unbounded column ratios => rfl
  | outOfPivots => rfl

theorem story_bothPhases : (s.bothPhases p r).solution.story =
    (s.bothPhasesMoves p r.iterations).foldl Story.make r.story := by
  have hstage := (r.note (.phaseStarted 1)).story_stage (some 1)
    "Initial tableau, phase 1 (minimize W)" (s.limit p) (s.phaseOneLeg p r.iterations)
  rw [Record.story_note] at hstage
  rw [bothPhasesMoves, List.foldl_cons, List.foldl_append, ← hstage, phaseOneRemarks, afterPhaseOne,
    phaseOneStatus, bothPhases, phaseOne]
  simp only
  cases (s.phaseOneLeg p r.iterations).stage.ending with
  | unbounded column ratios => rfl
  | outOfPivots => rfl
  | optimal =>
    by_cases hpart : (s.phaseOneLeg p r.iterations).stage.final.hasArtificialPart s.tolerance
    · simp [hpart, Record.story_note]
    · simp [hpart, story_phaseTwo, Record.story_note, Record.story_foldl_addDriveOut, driveOutPass,
        feasibleBasis]

theorem story_penalized (hr : r.iterations = 0) : (s.penalized p r).solution.story =
    ((s.penaltyLeg p).moves none "Initial tableau" (s.limit p) ++ s.afterPenalty p).foldl
      Story.make r.story := by
  have hstage := (r.write (Log.debug "artificial penalty" [("big_m", .number (s.penalty p))])
    ).story_stage none "Initial tableau" (s.limit p) (s.penaltyLeg p)
  rw [Record.story_write] at hstage
  rw [List.foldl_append, ← hstage, afterPenalty, Leg.conclusion, penalized]
  cases (s.penaltyLeg p).stage.ending with
  | outOfPivots => rfl
  | optimal =>
    cases (s.penaltyLeg p).stage.final.positiveArtificial? s.tolerance with
    | none => exact Record.story_note _ _
    | some row => simp [story_bothPhases, Record.story_note, hr]
  | unbounded column ratios =>
    cases (s.penaltyLeg p).stage.final.positiveArtificial? s.tolerance with
    | none => rfl
    | some row => simp [story_bothPhases, Record.story_note, hr]

/-- A solve shows what its moves add to the problem and its standard form. -/
theorem story_run : (s.run p).solution.story =
    (s.moves p).foldl Story.make (s.opening p).story := by
  rw [run, moves]
  cases s.discipline with
  | bigM => exact story_penalized s p _ rfl
  | twoPhase =>
    simp only
    split
    · exact story_bothPhases s p _
    · exact story_phaseTwo s p _ _

end SimplexSettings

end LinearProgram
