import LinearProgram.Proofs.Corners
import LinearProgram.Proofs.Mirror
import LinearProgram.Proofs.Moves
import LinearProgram.Proofs.TraceTableaus

/-! # Opposite problems

To make an objective large is to make its negation small. Both solves of such a pair mirror each
other: they make the same moves, and differ only in the sign of what they say of the objective. The
first phase does not know the objective, so it is the same in both.
-/

namespace LinearProgram

def Objective.opposite (o : Objective ℚ) : Objective ℚ :=
  ⟨o.coefficients.map (-·), o.sense.opposite⟩

/-- The problem with the opposite sense and the negated objective. -/
def Problem.opposite (p : Problem ℚ) : Problem ℚ := { p with objective := p.objective.opposite }

/-- The snapshot with a negated objective row. The first phase has an objective of its own. -/
def Snapshot.mirrored (a : Snapshot ℚ) : Snapshot ℚ :=
  if a.phase = some 1 then a
  else { a with grid := a.constraintRows ++ [a.objectiveRow.map (-·)] }

def Vertex.mirrored (v : Vertex ℚ) : Vertex ℚ := { v with value := -v.value }

/-- The row and the column of a pivot. -/
def Event.cell? {α : Type} : Event α → Option (ℕ × ℕ)
  | .pivot _ row column .. => some (row, column)
  | _ => none

theorem Event.IsSilent.cell?_eq_none {α : Type} {e : Event α} (h : e.IsSilent) :
    e.cell? = none := by
  cases e <;> first | rfl | cases h.2.1

/-- The two solves come to the same by the same pivots, with the objective negated. -/
structure SimplexSolution.Mirrors (a b : SimplexSolution ℚ) : Prop where
  status_eq : b.status = a.status
  assignment_eq : b.assignment = a.assignment
  optimalValue_eq : b.optimalValue = a.optimalValue.map (-·)
  solutionType_eq : b.solutionType = a.solutionType
  degenerate_eq : b.degenerate = a.degenerate
  iterations_eq : b.iterations = a.iterations
  cells_eq : b.trace.filterMap Event.cell? = a.trace.filterMap Event.cell?
  tableaus_eq : b.tableaus = a.tableaus.map Snapshot.mirrored

/-- The two surveys have the same corners, with the objective negated. -/
structure CornerSolution.Mirrors (a b : CornerSolution ℚ) : Prop where
  status_eq : b.status = a.status
  vertices_eq : b.vertices = a.vertices.map Vertex.mirrored
  optimalValue_eq : b.optimalValue = a.optimalValue.map (-·)
  optimalPoints_eq : b.optimalPoints = a.optimalPoints
  solutionType_eq : b.solutionType = a.solutionType

theorem combine_neg (as : List ℚ) (z : ℕ → ℚ) : combine (as.map (-·)) z = -combine as z := by
  induction as generalizing z with
  | nil => simp
  | cons a as ih =>
    rw [List.map_cons, combine_cons, combine_cons, ih]
    ring

theorem Objective.evaluate_opposite (o : Objective ℚ) (x : List ℚ) :
    o.opposite.evaluate x = -o.evaluate x := by
  rw [evaluate, evaluate, dot_eq_combine, dot_eq_combine]
  exact combine_neg _ _

namespace Problem

variable (p : Problem ℚ)

theorem variableCount_opposite : p.opposite.variableCount = p.variableCount := List.length_map _

/-- Every rational is finite. -/
theorem validate_opposite : p.opposite.validate = p.validate := by
  have hfinite : ∀ l : List ℚ, l.all Scalar.isFinite = true := fun l =>
    List.all_eq_true.mpr fun _ _ => rfl
  rw [validate, validate, variableCount_opposite, hfinite, hfinite]
  rfl

theorem standardRows_opposite (before rows : List (Constraint ℚ)) :
    p.opposite.standardRows before rows = p.standardRows before rows := by
  induction rows generalizing before with
  | nil => rfl
  | cons c rows ih =>
    rw [standardRows, standardRows, ih, standardRow, standardRow, variableCount_opposite]
    rfl

/-- The standard form does not depend on the objective. -/
theorem standardForm_opposite : p.opposite.standardForm = p.standardForm := by
  have hcolumns : p.opposite.standardColumns = p.standardColumns := by
    rw [standardColumns, standardColumns, variableCount_opposite]
    rfl
  rw [standardForm, standardForm, hcolumns, standardRows_opposite]
  rfl

end Problem

theorem Scalar.approxEq_neg (tolerance x y : ℚ) :
    Scalar.approxEq tolerance (-x) (-y) = Scalar.approxEq tolerance x y := by
  have hdiff : -x - -y = -(x - y) := by ring
  rw [approxEq, approxEq, scale, scale, hdiff, abs_neg_eq, abs_neg_eq, abs_neg_eq]

theorem Objective.improves_opposite (o : Objective ℚ) (x y : ℚ) :
    o.opposite.improves (-x) (-y) = o.improves x y := by
  rw [Bool.eq_iff_iff, improves_iff, improves_iff, opposite, Sense.sign_opposite, neg_mul_neg,
    neg_mul_neg]

theorem Objective.best_opposite (o : Objective ℚ) (vertices : List (Vertex ℚ)) :
    o.opposite.best (vertices.map Vertex.mirrored) = (o.best vertices).map (-·) := by
  cases vertices with
  | nil => rfl
  | cons v rest =>
    refine congrArg some ?_
    rw [List.foldl_map]
    refine List.foldl_hom Neg.neg fun best w => ?_
    simp only [Vertex.mirrored, improves_opposite]
    exact (apply_ite Neg.neg _ _ _).symm

namespace Problem

variable (p : Problem ℚ)

theorem sift_opposite (tolerance : ℚ) (seen points : List (Point ℚ)) :
    p.opposite.sift tolerance seen points = p.sift tolerance seen points := by
  induction points generalizing seen with
  | nil => rfl
  | cons point rest ih =>
    simp only [sift, ih]
    rfl

/-- Which points are corners does not depend on the objective. -/
theorem survey_opposite (tolerance : ℚ) : p.opposite.survey tolerance = p.survey tolerance := by
  rw [survey, survey, sift_opposite]
  rfl

theorem mirrors_optimum (tolerance : ℚ) (survey : Survey ℚ) :
    (p.optimum tolerance survey).Mirrors (p.opposite.optimum tolerance survey) := by
  have hvertices : survey.vertices p.opposite.objective =
      (survey.vertices p.objective).map Vertex.mirrored := by
    rw [Survey.vertices, Survey.vertices, List.map_map]
    refine List.map_congr_left fun point _ => ?_
    exact congrArg (Vertex.mk point) (p.objective.evaluate_opposite point.coords)
  have hwinners : ∀ best, ((survey.vertices p.opposite.objective).filter fun v =>
      Scalar.approxEq tolerance v.value (-best)).map (·.point) =
        ((survey.vertices p.objective).filter fun v =>
          Scalar.approxEq tolerance v.value best).map (·.point) := by
    intro best
    rw [hvertices, List.filter_map, List.map_map]
    simp only [Function.comp_def, Vertex.mirrored, Scalar.approxEq_neg]
  have hbest : p.opposite.objective.best (survey.vertices p.opposite.objective) =
      (p.objective.best (survey.vertices p.objective)).map (-·) := by
    rw [hvertices]
    exact p.objective.best_opposite _
  rw [optimum, optimum]
  cases hcase : p.objective.best (survey.vertices p.objective) with
  | none =>
    rw [hcase, Option.map_none] at hbest
    simp only [hbest]
    exact ⟨rfl, rfl, rfl, rfl, rfl⟩
  | some best =>
    rw [hcase, Option.map_some] at hbest
    simp only [hbest, hwinners]
    exact ⟨rfl, hvertices, rfl, rfl, rfl⟩

end Problem

/-- The two moves show the same, with the objective negated. -/
structure Move.Mirrors (m m' : Move ℚ) : Prop where
  isPivot_eq : m'.isPivot = m.isPivot
  cells_eq : ∀ iterations tableaus, (m'.events iterations tableaus).filterMap Event.cell? =
    (m.events iterations tableaus).filterMap Event.cell?
  snapshots_eq : ∀ iterations, m'.snapshots iterations =
    (m.snapshots iterations).map Snapshot.mirrored

structure Story.Mirrors (a b : Story ℚ) : Prop where
  iterations_eq : b.iterations = a.iterations
  cells_eq : b.trace.filterMap Event.cell? = a.trace.filterMap Event.cell?
  tableaus_eq : b.tableaus = a.tableaus.map Snapshot.mirrored

namespace Story.Mirrors

variable {a b : Story ℚ}

theorem make (h : a.Mirrors b) {m m' : Move ℚ} (hm : m.Mirrors m') :
    (a.make m).Mirrors (b.make m') where
  iterations_eq := by rw [Story.make, Story.make, h.iterations_eq, hm.isPivot_eq]
  cells_eq := by
    rw [Story.make, Story.make, List.filterMap_append, List.filterMap_append, h.cells_eq,
      hm.cells_eq, h.iterations_eq, h.tableaus_eq, List.length_map]
  tableaus_eq := by
    rw [Story.make, Story.make, h.tableaus_eq, h.iterations_eq, hm.snapshots_eq, List.map_append]

/-- Mirrored moves keep stories mirrored. -/
theorem foldl_make {moves moves' : List (Move ℚ)} (hm : List.Forall₂ Move.Mirrors moves moves')
    (h : a.Mirrors b) : (moves.foldl Story.make a).Mirrors (moves'.foldl Story.make b) := by
  induction hm generalizing a b with
  | nil => exact h
  | cons hfirst _ ih => exact ih (h.make hfirst)

end Story.Mirrors

theorem Tableau.grid_mirrored (t : Tableau ℚ) :
    t.mirrored.grid.map (·.map Scalar.unsignedZero) =
      (t.grid.map (·.map Scalar.unsignedZero)).dropLast ++
        [((t.grid.map (·.map Scalar.unsignedZero)).getLastD []).map (-·)] := by
  have hid : (fun row : List ℚ => row.map Scalar.unsignedZero) = id := by
    funext row
    rw [funext Scalar.unsignedZero_eq, List.map_id']
    rfl
  rw [hid, List.map_id, List.map_id, grid, grid, List.dropLast_concat, List.getLastD_concat,
    ← Row.values_negated]
  rfl

section Snapshots

variable {phase : Option ℕ} (hphase : phase ≠ some 1)

include hphase

theorem Tableau.snapshot_mirrored (t : Tableau ℚ) (iteration : ℕ) (description : String) :
    t.mirrored.snapshot phase iteration description =
      (t.snapshot phase iteration description).mirrored := by
  refine Eq.trans ?_ (if_neg hphase).symm
  exact congrArg (fun grid => { t.snapshot phase iteration description with grid := grid })
    t.grid_mirrored

theorem Record.pivotSnapshot_mirrored (iteration : ℕ) (d : Pivot ℚ) :
    pivotSnapshot phase iteration d.mirrored = (pivotSnapshot phase iteration d).mirrored := by
  refine Eq.trans ?_ (if_neg hphase).symm
  exact congrArg (fun grid => { pivotSnapshot phase iteration d with grid := grid })
    d.after.grid_mirrored

end Snapshots

namespace Move.Mirrors

variable {phase : Option ℕ}

theorem note {e e' : Event ℚ} (he : e.cell? = none) (he' : e'.cell? = none) :
    (Move.note e).Mirrors (.note e') where
  isPivot_eq := rfl
  cells_eq _ _ := by simp [Move.events, he, he']
  snapshots_eq _ := rfl

theorem start (hphase : phase ≠ some 1) (description : String) (t : Tableau ℚ) :
    (Move.start phase description t).Mirrors (.start phase description t.mirrored) where
  isPivot_eq := rfl
  cells_eq _ _ := rfl
  snapshots_eq iterations := congrArg ([·]) (t.snapshot_mirrored hphase iterations description)

theorem pivot (hphase : phase ≠ some 1) (d : Pivot ℚ) :
    (Move.pivot phase d).Mirrors (.pivot phase d.mirrored) where
  isPivot_eq := rfl
  cells_eq _ _ := rfl
  snapshots_eq _ := congrArg ([·]) (Record.pivotSnapshot_mirrored hphase _ d)

theorem closing (limit : ℕ) (stage : Stage ℚ) :
    (Move.closing limit stage).Mirrors (.closing limit stage.mirrored) := by
  rw [Move.closing, Move.closing, Stage.mirrored]
  cases stage.ending <;> exact ⟨rfl, fun _ _ => rfl, fun _ => rfl⟩

/-- Moves of the first phase mirror themselves. -/
theorem refl {m : Move ℚ} (h : ∀ iterations, ∀ a ∈ m.snapshots iterations, a.phase = some 1) :
    m.Mirrors m where
  isPivot_eq := rfl
  cells_eq _ _ := rfl
  snapshots_eq iterations := by
    have hmap : ∀ a ∈ m.snapshots iterations, a.mirrored = a := fun a ha =>
      if_pos (h iterations a ha)
    rw [List.map_congr_left hmap, List.map_id']

end Move.Mirrors

/-- The outcome with a negated optimal value. -/
def Outcome.mirrored (o : Outcome ℚ) : Outcome ℚ :=
  { o with optimalValue := o.optimalValue.map (-·) }

theorem Tableau.costs_negated (t : Tableau ℚ) (coefficients : List ℚ) (artificial : ℚ) :
    t.costs (coefficients.map (-·)) (-artificial) =
      (t.costs coefficients artificial).map (-·) := by
  rw [costs, costs, List.map_map]
  refine List.map_congr_left ?_
  rintro ⟨column, j⟩ -
  have hdecision : (coefficients.map (-·)).getD j 0 = -coefficients.getD j 0 :=
    (Row.mk coefficients 0).entry_negated j
  simp only [Function.comp_apply]
  cases column.kind with
  | decision => exact hdecision
  | artificial => rfl
  | slack => exact neg_zero.symm
  | surplus => exact neg_zero.symm

namespace Leg

variable (leg : Leg ℚ)

theorem mirrors_moves {phase : Option ℕ} (hphase : phase ≠ some 1) (description : String)
    (limit : ℕ) : List.Forall₂ Move.Mirrors (leg.moves phase description limit)
      (leg.opposite.moves phase description limit) := by
  rw [moves, moves, start_opposite, stage_opposite]
  refine .cons (.start hphase description leg.start)
    (List.rel_append ?_ (.cons (.closing limit leg.stage) .nil))
  rw [Stage.mirrored, List.map_map, List.forall₂_map_left_iff, List.forall₂_map_right_iff]
  exact List.forall₂_same.mpr fun d _ => .pivot hphase d

theorem mirrors_moves_self (description : String) (limit : ℕ) :
    List.Forall₂ Move.Mirrors (leg.moves (some 1) description limit)
      (leg.moves (some 1) description limit) := by
  refine List.forall₂_same.mpr fun m hm => .refl fun iterations a ha => ?_
  simp only [moves, List.mem_cons, List.mem_append, List.mem_map, List.not_mem_nil, or_false] at hm
  obtain rfl | ⟨d, -, rfl⟩ | rfl := hm
  · rw [List.mem_singleton.mp ha]
    rfl
  · rw [List.mem_singleton.mp ha]
    rfl
  · rw [Move.snapshots_closing] at ha
    cases ha

theorem mirrors_conclusion (p : Problem ℚ) :
    List.Forall₂ Move.Mirrors (leg.conclusion p) (leg.opposite.conclusion p.opposite) := by
  rw [conclusion, conclusion, stage_opposite, Stage.mirrored]
  cases leg.stage.ending with
  | optimal => exact .cons (.note rfl rfl) .nil
  | unbounded column ratios => exact .nil
  | outOfPivots => exact .nil

theorem outcome_opposite (p : Problem ℚ) :
    leg.opposite.outcome p.opposite = (leg.outcome p).mirrored := by
  have hfinish : Outcome.finish leg.goal.tolerance p.opposite leg.stage.final.mirrored =
      (Outcome.finish leg.goal.tolerance p leg.stage.final).mirrored := by
    rw [Outcome.finish, Outcome.finish, Outcome.mirrored, Tableau.hasTie_mirrored]
    exact congrArg (fun value => Outcome.mk .optimal leg.stage.final.assignment (some value) _ _)
      (p.objective.evaluate_opposite leg.stage.final.assignment)
  rw [outcome, outcome, stage_opposite, Stage.mirrored]
  cases leg.stage.ending with
  | optimal => exact hfinish
  | unbounded column ratios => rfl
  | outOfPivots => rfl

end Leg

namespace SimplexSettings

variable (s : SimplexSettings ℚ) (p : Problem ℚ)

theorem limit_opposite : s.limit p.opposite = s.limit p := by
  rw [limit, limit, p.standardForm_opposite]

theorem phaseOneLeg_opposite (used : ℕ) :
    s.phaseOneLeg p.opposite used = s.phaseOneLeg p used := by
  rw [phaseOneLeg, phaseOneLeg, p.standardForm_opposite, p.variableCount_opposite, limit_opposite]

theorem phaseTwoLeg_opposite (t : Tableau ℚ) (used : ℕ) :
    s.phaseTwoLeg p.opposite t used = (s.phaseTwoLeg p t used).opposite := by
  have hcosts := t.costs_negated p.objective.coefficients 0
  rw [neg_zero] at hcosts
  rw [phaseTwoLeg, phaseTwoLeg, limit_opposite, Leg.opposite, ← hcosts]
  rfl

theorem penalty_opposite : s.penalty p.opposite = s.penalty p := by
  rw [penalty, penalty, Problem.opposite, Objective.opposite, List.foldl_map]
  simp only [Scalar.abs_neg_eq]

/-- The penalty has the sign that makes artificials worse under either sense. -/
theorem penaltyLeg_opposite : s.penaltyLeg p.opposite = (s.penaltyLeg p).opposite := by
  rw [penaltyLeg, penaltyLeg, Leg.opposite, penalty_opposite, p.standardForm_opposite,
    limit_opposite]
  simp only [Problem.opposite, Objective.opposite]
  rw [← Tableau.costs_negated]
  cases p.objective.sense with
  | maximize => simp only [Sense.opposite, neg_neg]; rfl
  | minimize => rfl

theorem stage_phaseOneLeg_opposite (used : ℕ) :
    (s.phaseOneLeg p.opposite used).stage = (s.phaseOneLeg p used).stage := by
  rw [phaseOneLeg_opposite]

theorem isRechecked_opposite : s.isRechecked p.opposite = s.isRechecked p := by
  rw [isRechecked, isRechecked, penaltyLeg_opposite, Leg.stage_opposite]
  rfl

theorem bothPhasesOutcome_opposite (used : ℕ) :
    s.bothPhasesOutcome p.opposite used = (s.bothPhasesOutcome p used).mirrored := by
  have hstage := s.stage_phaseOneLeg_opposite p used
  rw [bothPhasesOutcome, bothPhasesOutcome, phaseOneStatus_congr rfl hstage]
  cases s.phaseOneStatus p used with
  | some status => rfl
  | none =>
    simp only [secondLeg, feasibleBasis_congr rfl hstage, hstage, phaseTwoLeg_opposite]
    exact Leg.outcome_opposite _ p

theorem outcome_opposite : s.outcome p.opposite = (s.outcome p).mirrored := by
  have hpenalty : (s.penaltyLeg p.opposite).stage.pivots.length =
      (s.penaltyLeg p).stage.pivots.length := by
    rw [penaltyLeg_opposite, Leg.stage_opposite]
    exact List.length_map _
  have hfrom : s.bothPhasesFrom? p.opposite = s.bothPhasesFrom? p := by
    rw [bothPhasesFrom?, bothPhasesFrom?, isRechecked_opposite, hpenalty, p.standardForm_opposite]
  have hdirect : s.directLeg p.opposite = (s.directLeg p).opposite := by
    rw [directLeg, directLeg, penaltyLeg_opposite, p.standardForm_opposite, phaseTwoLeg_opposite]
    cases s.discipline <;> rfl
  rw [outcome, outcome, hfrom]
  cases s.bothPhasesFrom? p with
  | some used => exact s.bothPhasesOutcome_opposite p used
  | none =>
    simp only [hdirect]
    exact Leg.outcome_opposite _ p

theorem mirrors_phaseTwo (t : Tableau ℚ) (used : ℕ) :
    List.Forall₂ Move.Mirrors (s.phaseTwoMoves p t used) (s.phaseTwoMoves p.opposite t used) := by
  rw [phaseTwoMoves, phaseTwoMoves, phaseTwoLeg_opposite, limit_opposite]
  exact List.rel_append (Leg.mirrors_moves _ (by decide) _ _) (Leg.mirrors_conclusion _ p)

theorem mirrors_phaseOneRemarks (used : ℕ) :
    List.Forall₂ Move.Mirrors (s.phaseOneRemarks p used) (s.phaseOneRemarks p used) := by
  refine List.forall₂_same.mpr fun move h => ?_
  obtain ⟨w, rfl⟩ | ⟨reason, rfl⟩ := of_mem_phaseOneRemarks h <;> exact .note rfl rfl

theorem mirrors_driveOutPass (used : ℕ) :
    List.Forall₂ Move.Mirrors ((s.driveOutPass p used).map .driveOut)
      ((s.driveOutPass p used).map .driveOut) := by
  refine List.forall₂_same.mpr fun m hm => .refl fun _ a ha => ?_
  obtain ⟨d, -, rfl⟩ := List.mem_map.mp hm
  obtain ⟨col, -, rfl⟩ := List.mem_map.mp ha
  rfl

theorem mirrors_bothPhases (used : ℕ) :
    List.Forall₂ Move.Mirrors (s.bothPhasesMoves p used) (s.bothPhasesMoves p.opposite used) := by
  have hstage := s.stage_phaseOneLeg_opposite p used
  rw [bothPhasesMoves, bothPhasesMoves, phaseOneLeg_opposite, limit_opposite,
    phaseOneRemarks_congr rfl hstage]
  refine .cons (.note rfl rfl) (List.rel_append (Leg.mirrors_moves_self _ _ _)
    (List.rel_append (s.mirrors_phaseOneRemarks p used) ?_))
  rw [afterPhaseOne, afterPhaseOne, phaseOneStatus_congr rfl hstage, driveOutPass_congr rfl hstage,
    feasibleBasis_congr rfl hstage, phaseOneLeg_opposite]
  cases s.phaseOneStatus p used with
  | some status => exact .nil
  | none =>
    exact List.rel_append (s.mirrors_driveOutPass p used)
      (.cons (.note rfl rfl) (s.mirrors_phaseTwo p _ _))

theorem mirrors_afterPenalty :
    List.Forall₂ Move.Mirrors (s.afterPenalty p) (s.afterPenalty p.opposite) := by
  have hstage : (s.penaltyLeg p.opposite).stage = (s.penaltyLeg p).stage.mirrored := by
    rw [penaltyLeg_opposite, Leg.stage_opposite]
  have hlength : (s.penaltyLeg p).stage.mirrored.pivots.length =
      (s.penaltyLeg p).stage.pivots.length := List.length_map _
  have hpositive : (s.penaltyLeg p.opposite).stage.final.positiveArtificial? s.tolerance =
      (s.penaltyLeg p).stage.final.positiveArtificial? s.tolerance := by
    rw [hstage]
    rfl
  by_cases hend : (s.penaltyLeg p).stage.ending = .outOfPivots
  · rw [afterPenalty, afterPenalty, hstage, Stage.mirrored, hend]
    exact .nil
  have hend' : (s.penaltyLeg p.opposite).stage.ending ≠ .outOfPivots := by
    rw [hstage]
    exact hend
  cases hrow : (s.penaltyLeg p).stage.final.positiveArtificial? s.tolerance with
  | none =>
    rw [afterPenalty_of_none hrow, afterPenalty_of_none (hpositive.trans hrow),
      penaltyLeg_opposite]
    exact Leg.mirrors_conclusion _ p
  | some row =>
    rw [afterPenalty_of_some hend hrow, afterPenalty_of_some hend' (hpositive.trans hrow), hstage,
      hlength]
    exact .cons (.note rfl rfl) (s.mirrors_bothPhases p _)

/-- Both solves make the same moves. -/
theorem mirrors_moves : List.Forall₂ Move.Mirrors (s.moves p) (s.moves p.opposite) := by
  rw [moves, moves]
  cases s.discipline with
  | bigM =>
    simp only
    refine List.rel_append ?_ (s.mirrors_afterPenalty p)
    rw [penaltyLeg_opposite, limit_opposite]
    exact Leg.mirrors_moves _ (by decide) _ _
  | twoPhase =>
    simp only [p.standardForm_opposite]
    split
    · exact s.mirrors_bothPhases p 0
    · exact s.mirrors_phaseTwo p _ 0

theorem mirrors_opening : (s.opening p).story.Mirrors (s.opening p.opposite).story where
  iterations_eq := rfl
  cells_eq := by
    have hnone : ∀ q : Problem ℚ, (s.opening q).trace.filterMap Event.cell? = [] := fun q =>
      List.filterMap_eq_nil_iff.mpr fun e he => (isSilent_of_mem_opening he).cell?_eq_none
    exact (hnone p.opposite).trans (hnone p).symm
  tableaus_eq := rfl

theorem mirrors_run : (s.run p).solution.Mirrors (s.run p.opposite).solution := by
  have hstory := Story.Mirrors.foldl_make (s.mirrors_moves p) (s.mirrors_opening p)
  rw [← story_run, ← story_run] at hstory
  have houtcome : (s.run p.opposite).solution.outcome = (s.run p).solution.outcome.mirrored := by
    rw [outcome_run, outcome_run, outcome_opposite]
  exact ⟨congrArg Outcome.status houtcome, congrArg Outcome.assignment houtcome,
    congrArg Outcome.optimalValue houtcome, congrArg Outcome.solutionType houtcome,
    congrArg Outcome.degenerate houtcome, hstory.iterations_eq, hstory.cells_eq,
    hstory.tableaus_eq⟩

variable {s p}

/-- A problem and its opposite are both solved, and the solves mirror each other. In the plane the
surveys of their corners do so as well. -/
theorem solve_opposite (hv : p.validate = .ok ()) (tolerance : ℚ) :
    (∃ a b, s.solve p = .ok a ∧ s.solve p.opposite = .ok b ∧ a.Mirrors b) ∧
      (p.variableCount = 2 → ∃ a b, p.solveByCorners tolerance = .ok a ∧
        p.opposite.solveByCorners tolerance = .ok b ∧ a.Mirrors b) := by
  have hv' : p.opposite.validate = .ok () := p.validate_opposite.trans hv
  refine ⟨⟨_, _, solve_of_validate hv, solve_of_validate hv', s.mirrors_run p⟩, fun h2 => ?_⟩
  have h2' : p.opposite.variableCount = 2 := p.variableCount_opposite.trans h2
  refine ⟨_, _, Problem.solveByCorners_of_validate tolerance hv h2,
    Problem.solveByCorners_of_validate tolerance hv' h2', ?_⟩
  rw [p.survey_opposite]
  exact p.mirrors_optimum tolerance _

/-- A penalty of the wrong sign is rechecked in both solves, which end at opposite values. -/
theorem solve_opposite_crossingProblem : crossingProblem.validate = .ok () ∧
    (∃ a b, (⟨none, 0, .bigM, -1⟩ : SimplexSettings ℚ).solve crossingProblem = .ok a ∧
      (⟨none, 0, .bigM, -1⟩ : SimplexSettings ℚ).solve crossingProblem.opposite = .ok b ∧
      a.Mirrors b ∧ a.trace.filterMap Event.cell? = [(0, 1), (0, 0)] ∧
      a.optimalValue = some 2 ∧ b.optimalValue = some (-2)) ∧
    ∃ a b, crossingProblem.solveByCorners 0 = .ok a ∧
      crossingProblem.opposite.solveByCorners 0 = .ok b ∧ a.Mirrors b ∧
      a.vertices = [⟨⟨2, 0⟩, 2⟩] ∧ b.vertices = [⟨⟨2, 0⟩, -2⟩] := by
  have hv : crossingProblem.validate = .ok () := by decide +kernel
  obtain ⟨⟨a, b, ha, hb, h⟩, hplane⟩ := solve_opposite (s := ⟨none, 0, .bigM, -1⟩) hv 0
  obtain ⟨c, d, hc, hd, hmirrors⟩ := hplane rfl
  obtain ⟨-, rfl⟩ := validate_of_solve ha
  obtain rfl := Except.ok.inj ((Problem.solveByCorners_of_validate 0 hv rfl).symm.trans hc)
  refine ⟨hv, ⟨_, b, ha, hb, h, by decide +kernel, by decide +kernel, ?_⟩,
    _, d, hc, hd, hmirrors, by decide +kernel, ?_⟩
  · rw [h.optimalValue_eq]
    decide +kernel
  · rw [hmirrors.vertices_eq]
    decide +kernel

end SimplexSettings

end LinearProgram
