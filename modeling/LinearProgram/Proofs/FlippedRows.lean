import LinearProgram.Proofs.FlaggedRows
import LinearProgram.Proofs.Mirror
import LinearProgram.Proofs.Moves
import LinearProgram.Proofs.Points

/-! # Flipped rows

A row states the same condition once both of its sides are multiplied by `-1`. Its line then has the
opposite sign, which moves no crossing, and every check of it has the same verdict. The standard form
gives a row the sign in which its bound is not negative, so it forgets how the row was written. Only
a bound of zero leaves the choice open, and there the two signs need different columns.
-/

namespace LinearProgram

def Line.flipped (l : Line ℚ) : Line ℚ := ⟨l.label, -l.a, -l.b, -l.c⟩

/-- The two lines are the same up to the sign of their equation. -/
def Line.IsSpelling (l m : Line ℚ) : Prop := m = l ∨ m = l.flipped

/-- The problem with some of its rows multiplied by `-1`. -/
def Problem.flipRows (rows : Finset ℕ) (p : Problem ℚ) : Problem ℚ :=
  { p with constraints := p.constraints.mapIdx fun i c => if i ∈ rows then c.flipped else c }

/-- A check without its two sides. -/
def Check.verdict {α : Type} (c : Check α) : String × Bool := (c.label, c.satisfied)

namespace Event

variable {α : Type}

/-- The verdicts of all checks at a point. -/
def verdicts? : Event α → Option (Point α × List (String × Bool) × Bool)
  | .feasibilityCheck point checks feasible => some (point, checks.map Check.verdict, feasible)
  | _ => none

/-- What is said of a degenerate row. -/
def flag? : Event α → Option (String × Bool)
  | .degenerateConstraint label _ _ always => some (label, always)
  | _ => none

end Event

/-- A candidate without the sides of its checks. -/
def Candidate.unspelled {α : Type} (c : Candidate α) :
    Point α × List (String × Bool) × Verdict α :=
  (c.point, c.checks.map Check.verdict, c.verdict)

/-- Both surveys find the same, and judge every row alike. -/
structure CornerSolution.Agrees (a b : CornerSolution ℚ) : Prop where
  status_eq : b.status = a.status
  vertices_eq : b.vertices = a.vertices
  optimalValue_eq : b.optimalValue = a.optimalValue
  optimalPoints_eq : b.optimalPoints = a.optimalPoints
  solutionType_eq : b.solutionType = a.solutionType
  verdicts_eq : b.trace.filterMap Event.verdicts? = a.trace.filterMap Event.verdicts?
  flags_eq : b.trace.filterMap Event.flag? = a.trace.filterMap Event.flag?

/-- Both solves come to the same by the same tableaus. -/
structure SimplexSolution.Agrees (a b : SimplexSolution ℚ) : Prop where
  status_eq : b.status = a.status
  assignment_eq : b.assignment = a.assignment
  optimalValue_eq : b.optimalValue = a.optimalValue
  solutionType_eq : b.solutionType = a.solutionType
  degenerate_eq : b.degenerate = a.degenerate
  iterations_eq : b.iterations = a.iterations
  tableaus_eq : b.tableaus = a.tableaus

section Lines

variable (tolerance : ℚ)

theorem Line.intersection_flipped_left (l m : Line ℚ) :
    l.flipped.intersection tolerance m = l.intersection tolerance m := by
  have hneg : ∀ x y : ℚ, -x - -y = -(x - y) := fun x y => by ring
  simp only [intersection, flipped, neg_mul, mul_neg, hneg, Scalar.abs_neg_eq, neg_div_neg_eq]

theorem Line.intersection_flipped_right (l m : Line ℚ) :
    l.intersection tolerance m.flipped = l.intersection tolerance m := by
  have hneg : ∀ x y : ℚ, -x - -y = -(x - y) := fun x y => by ring
  simp only [intersection, flipped, neg_mul, mul_neg, hneg, Scalar.abs_neg_eq, neg_div_neg_eq]

variable {tolerance}

theorem Line.IsSpelling.crossing_eq {l l' m m' : Line ℚ} (hl : l.IsSpelling l')
    (hm : m.IsSpelling m') : l'.crossing tolerance m' = l.crossing tolerance m := by
  rcases hl with rfl | rfl <;> rcases hm with rfl | rfl
  · rfl
  · exact congrArg (Crossing.mk _ _) (intersection_flipped_right tolerance _ _)
  · exact congrArg (Crossing.mk _ _) (intersection_flipped_left tolerance _ _)
  · refine congrArg (Crossing.mk _ _) ?_
    rw [intersection_flipped_left, intersection_flipped_right]

/-- The signs of the lines do not matter to their crossings. -/
theorem crossings_eq_of_isSpelling {lines lines' : List (Line ℚ)}
    (h : List.Forall₂ Line.IsSpelling lines lines') :
    crossings tolerance lines' = crossings tolerance lines := by
  induction h with
  | nil => rfl
  | @cons l l' rest rest' hl hrest ih =>
    have hfirst : rest'.map (fun m => l'.crossing tolerance m) =
        rest.map fun m => l.crossing tolerance m := by
      clear ih
      induction hrest with
      | nil => rfl
      | cons hm _ ih => exact congrArg₂ List.cons (hl.crossing_eq hm) ih
    simp only [crossings, pairs, List.map_append, List.map_map] at ih ⊢
    exact congrArg₂ (· ++ ·) hfirst ih

end Lines

theorem Scalar.scale_neg (x y : ℚ) : scale (-x) (-y) = scale x y := by
  rw [scale, scale, abs_neg_eq, abs_neg_eq]

theorem Relation.holds_flipped (tolerance : ℚ) (relation : Relation) (lhs rhs : ℚ) :
    relation.flipped.holds tolerance (-lhs) (-rhs) = relation.holds tolerance lhs rhs := by
  cases relation with
  | le =>
    simp only [flipped, holds, Scalar.scale_neg, decide_eq_decide]
    constructor <;> intro h <;> linarith
  | ge =>
    simp only [flipped, holds, Scalar.scale_neg, decide_eq_decide]
    constructor <;> intro h <;> linarith
  | eq =>
    have hdiff : Scalar.abs (-lhs - -rhs) = Scalar.abs (lhs - rhs) := by
      rw [← Scalar.abs_neg_eq (lhs - rhs)]
      exact congrArg Scalar.abs (by ring)
    simp only [flipped, holds, Scalar.approxEq, Scalar.scale_neg, hdiff]

namespace Constraint

theorem flipped_flipped (c : Constraint ℚ) : c.flipped.flipped = c := by
  obtain ⟨coefficients, relation, bound⟩ := c
  have hcoefficients : (coefficients.map (-·)).map (-·) = coefficients := by
    simp
  have hrelation : relation.flipped.flipped = relation := by cases relation <;> rfl
  simp only [flipped, hcoefficients, hrelation, neg_neg]

theorem isDegenerate_flipped (tolerance : ℚ) (c : Constraint ℚ) :
    c.flipped.isDegenerate tolerance = c.isDegenerate tolerance := by
  simp [isDegenerate, flipped, List.all_map, Function.comp_def, Scalar.abs_neg_eq]

theorem isSatisfied_flipped (tolerance : ℚ) (c : Constraint ℚ) (point : List ℚ) :
    c.flipped.isSatisfied tolerance point = c.isSatisfied tolerance point := by
  rw [isSatisfied, isSatisfied, lhs_flipped]
  exact c.relation.holds_flipped tolerance _ _

theorem line_flipped (label : String) (c : Constraint ℚ) :
    c.flipped.line label = (c.line label).flipped := by
  have hgetD : ∀ j, (c.coefficients.map (-·)).getD j 0 = -c.coefficients.getD j 0 :=
    (Row.mk c.coefficients 0).entry_negated
  simp only [line, flipped, Line.flipped, hgetD]

/-- Every rational is finite. -/
theorem validate_flipped (n number : ℕ) (c : Constraint ℚ) :
    c.flipped.validate n number = c.validate n number := by
  have hfinite : ∀ l : List ℚ, l.all Scalar.isFinite = true := fun l =>
    List.all_eq_true.mpr fun _ _ => rfl
  rw [validate, validate, hfinite, hfinite, flipped, List.length_map]
  rfl

/-- A bound that is not zero is positive in one of the two signs only. -/
theorem normalized_flipped {c : Constraint ℚ} (h : c.bound ≠ 0) :
    c.flipped.normalized = c.normalized := by
  have hbound : c.flipped.bound = -c.bound := rfl
  rw [normalized, normalized, hbound]
  rcases lt_or_gt_of_ne h with hneg | hpos
  · rw [if_pos hneg, if_neg (by linarith)]
  · rw [if_pos (by linarith), if_neg (by linarith), flipped_flipped]

end Constraint

namespace Problem

variable (rows : Finset ℕ) (p : Problem ℚ)

theorem zipIdx_flipRows : (p.flipRows rows).constraints.zipIdx =
    p.constraints.zipIdx.map fun e => (if e.2 ∈ rows then e.1.flipped else e.1, e.2) := by
  apply List.ext_getElem <;> simp [flipRows]

theorem validate_flipRows : (p.flipRows rows).validate = p.validate := by
  have hfrom : ∀ (l : List (Constraint ℚ)) (k number : ℕ), Constraint.validateFrom p.variableCount
      number (l.mapIdx fun i c => if i + k ∈ rows then c.flipped else c) =
        Constraint.validateFrom p.variableCount number l := by
    intro l
    induction l with
    | nil => exact fun _ _ => rfl
    | cons c l ih =>
      intro k number
      have hrest := ih (k + 1) (number + 1)
      have hfirst : (if 0 + k ∈ rows then c.flipped else c).validate p.variableCount number =
          c.validate p.variableCount number := by
        split
        · exact c.validate_flipped _ _
        · rfl
      simp only [← Nat.add_assoc, Nat.add_right_comm _ k 1] at hrest
      rw [List.mapIdx_cons, Constraint.validateFrom, Constraint.validateFrom, hfirst, hrest]
  have hempty : (p.flipRows rows).constraints.isEmpty = p.constraints.isEmpty := by
    rw [flipRows]
    cases p.constraints <;> simp
  have hcount : (p.flipRows rows).variableCount = p.variableCount := rfl
  have hobjective : (p.flipRows rows).objective = p.objective := rfl
  have hrest : Constraint.validateFrom p.variableCount 1 (p.flipRows rows).constraints =
      Constraint.validateFrom p.variableCount 1 p.constraints := hfrom p.constraints 0 1
  rw [validate, validate, hcount, hobjective, hempty, hrest]

theorem isSpelling_boundaryLines (tolerance : ℚ) : List.Forall₂ Line.IsSpelling
    (p.boundaryLines tolerance) ((p.flipRows rows).boundaryLines tolerance) := by
  rw [boundaryLines, boundaryLines, zipIdx_flipRows, List.filterMap_map]
  apply List.rel_append _ (List.forall₂_same.mpr fun _ _ => .inl rfl)
  apply List.rel_filterMap (R := Eq) _ (List.forall₂_same.mpr fun _ _ => rfl)
  rintro ⟨c, i⟩ _ rfl
  by_cases hi : i ∈ rows
  · simp only [Function.comp_apply, if_pos hi, Constraint.isDegenerate_flipped,
      Constraint.line_flipped]
    split
    · exact .none
    · exact .some (.inr rfl)
  · simp only [Function.comp_apply, if_neg hi]
    split
    · exact .none
    · exact .some (.inl rfl)

/-- Every check has the same verdict. -/
theorem verdicts_checksAt (tolerance : ℚ) (point : Point ℚ) :
    ((p.flipRows rows).checksAt tolerance point).map Check.verdict =
      (p.checksAt tolerance point).map Check.verdict := by
  rw [checksAt, checksAt, zipIdx_flipRows, List.map_map]
  simp only [List.map_cons, List.map_map]
  congr 2
  apply List.map_congr_left
  rintro ⟨c, i⟩ -
  by_cases hi : i ∈ rows
  · simp [hi, Check.verdict, Constraint.isSatisfied_flipped]
  · simp [hi]

theorem all_checksAt (tolerance : ℚ) (point : Point ℚ) :
    ((p.flipRows rows).checksAt tolerance point).all (·.satisfied) =
      (p.checksAt tolerance point).all (·.satisfied) := by
  have hall : ∀ checks : List (Check ℚ),
      checks.all (·.satisfied) = (checks.map Check.verdict).all (·.2) := fun checks => by
    rw [List.all_map]
    rfl
  rw [hall, verdicts_checksAt, ← hall]

theorem sift_flipRows (tolerance : ℚ) (seen points : List (Point ℚ)) :
    ((p.flipRows rows).sift tolerance seen points).map Candidate.unspelled =
      (p.sift tolerance seen points).map Candidate.unspelled := by
  induction points generalizing seen with
  | nil => rfl
  | cons point points ih =>
    have hchecks := p.verdicts_checksAt rows tolerance point
    simp only [sift, all_checksAt]
    split
    · split <;> simp only [List.map_cons, ih, Candidate.unspelled, hchecks]
    · simp only [List.map_cons, ih, Candidate.unspelled, hchecks]

theorem crossings_survey_flipRows (tolerance : ℚ) :
    ((p.flipRows rows).survey tolerance).crossings = (p.survey tolerance).crossings :=
  crossings_eq_of_isSpelling (p.isSpelling_boundaryLines rows tolerance)

theorem candidates_survey_flipRows (tolerance : ℚ) :
    ((p.flipRows rows).survey tolerance).candidates.map Candidate.unspelled =
      (p.survey tolerance).candidates.map Candidate.unspelled := by
  have hcrossings := p.crossings_survey_flipRows rows tolerance
  rw [survey, survey] at hcrossings ⊢
  simp only at hcrossings ⊢
  rw [hcrossings, sift_flipRows]

theorem corners_survey_flipRows (tolerance : ℚ) :
    ((p.flipRows rows).survey tolerance).corners = (p.survey tolerance).corners := by
  have hcorners : ∀ l : List (Candidate ℚ), l.filterMap Candidate.corner? =
      (l.map Candidate.unspelled).filterMap fun c =>
        if c.2.2 = .corner then some c.1 else none := fun l => by
    rw [List.filterMap_map]
    refine List.filterMap_congr fun c _ => ?_
    rw [Candidate.corner?, Function.comp_apply, Candidate.unspelled]
    cases c.verdict <;> rfl
  rw [Survey.corners, Survey.corners, hcorners, candidates_survey_flipRows, ← hcorners]

theorem vertices_survey_flipRows (tolerance : ℚ) :
    ((p.flipRows rows).survey tolerance).vertices p.objective =
      (p.survey tolerance).vertices p.objective := by
  rw [Survey.vertices, Survey.vertices, corners_survey_flipRows]

/-- The trace tells every check in the order of the candidates. -/
theorem verdicts_trace (tolerance : ℚ) (s : Survey ℚ) :
    (p.optimum tolerance s).trace.filterMap Event.verdicts? =
      (s.candidates.map Candidate.unspelled).map fun (point, verdicts, verdict) =>
        (point, verdicts, decide (verdict ≠ .rejected)) := by
  have haside : ∀ e : Event ℚ, e.IsAside → e.verdicts? = none := fun e he => by
    cases e <;> first | rfl | exact he.elim
  have hcrossing : ∀ c : Crossing ℚ, c.event.verdicts? = none := fun c => by
    rw [Crossing.event]
    cases c.point <;> rfl
  have hcandidate : ∀ c : Candidate ℚ, c.events.filterMap Event.verdicts? =
      [(c.point, c.checks.map Check.verdict, decide (c.verdict ≠ .rejected))] := fun c => by
    rw [Candidate.events]
    cases c.verdict <;> rfl
  have hvertex : ∀ v : Vertex ℚ, (Event.vertexEvaluation v.point v.value).verdicts? = none :=
    fun _ => rfl
  rw [filterMap_trace_optimum haside]
  simp only [hcrossing, hcandidate, hvertex, List.filterMap_none, List.nil_append, List.append_nil,
    List.map_map]
  exact List.map_eq_flatMap.symm

theorem flags_flipRows (tolerance : ℚ) : ((p.flipRows rows).degenerateRows tolerance).filterMap
    Event.flag? = (p.degenerateRows tolerance).filterMap Event.flag? := by
  have hzero : ∀ c : Constraint ℚ, c.relation.flipped.holds tolerance 0 (-c.bound) =
      c.relation.holds tolerance 0 c.bound := fun c => by
    have h := c.relation.holds_flipped tolerance 0 c.bound
    rwa [neg_zero] at h
  rw [degenerateRows, degenerateRows, zipIdx_flipRows, List.filterMap_map, List.filterMap_filterMap,
    List.filterMap_filterMap]
  apply List.filterMap_congr
  rintro ⟨c, i⟩ -
  by_cases hi : i ∈ rows
  · have hc := hzero c
    simp only [Function.comp_apply, if_pos hi, Constraint.isDegenerate_flipped]
    split
    · simp [Constraint.flipped, Event.flag?, hc]
    · rfl
  · simp only [Function.comp_apply, if_neg hi]

/-- The flags stand in the trace as they were found. -/
theorem flags_trace_eq (tolerance : ℚ) (s : Survey ℚ) :
    (p.optimum tolerance s).trace.filterMap Event.flag? =
      (p.degenerateRows tolerance).filterMap Event.flag? := by
  rw [← flags_trace tolerance p s, List.filterMap_filter]
  refine List.filterMap_congr fun e _ => ?_
  cases e <;> rfl

theorem agrees_optimum (tolerance : ℚ) : (p.optimum tolerance (p.survey tolerance)).Agrees
    ((p.flipRows rows).optimum tolerance ((p.flipRows rows).survey tolerance)) := by
  have hvertices := p.vertices_survey_flipRows rows tolerance
  have hverdicts : ((p.flipRows rows).optimum tolerance
      ((p.flipRows rows).survey tolerance)).trace.filterMap Event.verdicts? =
        (p.optimum tolerance (p.survey tolerance)).trace.filterMap Event.verdicts? := by
    rw [verdicts_trace, verdicts_trace, candidates_survey_flipRows]
  have hflags : ((p.flipRows rows).optimum tolerance
      ((p.flipRows rows).survey tolerance)).trace.filterMap Event.flag? =
        (p.optimum tolerance (p.survey tolerance)).trace.filterMap Event.flag? := by
    rw [flags_trace_eq, flags_trace_eq, flags_flipRows]
  have hobjective : (p.flipRows rows).objective = p.objective := rfl
  rw [optimum, optimum, hobjective, hvertices] at hverdicts hflags ⊢
  cases hbest : p.objective.best ((p.survey tolerance).vertices p.objective) with
  | none =>
    rw [hbest] at hverdicts hflags
    exact ⟨rfl, rfl, rfl, rfl, rfl, hverdicts, hflags⟩
  | some best =>
    rw [hbest] at hverdicts hflags
    exact ⟨rfl, rfl, rfl, rfl, rfl, hverdicts, hflags⟩

/-- The standard form sees the rows in the sign with a positive bound. -/
theorem normalizedRows_flipRows
    (h : ∀ i ∈ rows, ∀ c, p.constraints[i]? = some c → c.bound ≠ 0) :
    (p.flipRows rows).normalizedRows = p.normalizedRows := by
  apply List.ext_getElem
  · simp [normalizedRows, flipRows]
  · intro i hi hi'
    simp only [normalizedRows, flipRows, List.getElem_map, List.getElem_mapIdx]
    split
    · next hmem => exact Constraint.normalized_flipped (h i hmem _ (List.getElem?_eq_getElem _))
    · rfl

section Congruence

variable {p q : Problem ℚ} (hcount : q.variableCount = p.variableCount)
  (hrows : q.normalizedRows = p.normalizedRows)

include hcount hrows

theorem standardRows_congr (before rest : List (Constraint ℚ)) :
    q.standardRows before rest = p.standardRows before rest := by
  induction rest generalizing before with
  | nil => rfl
  | cons c rest ih =>
    rw [standardRows, standardRows, ih]
    simp only [standardRow, hcount, hrows]

theorem standardForm_congr : q.standardForm = p.standardForm := by
  have hcolumns : q.standardColumns = p.standardColumns := by
    simp only [standardColumns, hcount, hrows]
  rw [standardForm, standardForm, hcolumns, hrows, standardRows_congr hcount hrows]

end Congruence

end Problem

namespace SimplexSettings

section Congruence

variable (s : SimplexSettings ℚ) {p q : Problem ℚ} (hobjective : q.objective = p.objective)
  (hform : q.standardForm = p.standardForm)

include hform

theorem limit_congr : s.limit q = s.limit p := by rw [limit, limit, hform]

include hobjective

theorem phaseOneLeg_congr (used : ℕ) : s.phaseOneLeg q used = s.phaseOneLeg p used := by
  rw [phaseOneLeg, phaseOneLeg, s.limit_congr hform, hform, Problem.variableCount, hobjective]
  rfl

theorem phaseTwoLeg_congr (t : Tableau ℚ) (used : ℕ) :
    s.phaseTwoLeg q t used = s.phaseTwoLeg p t used := by
  rw [phaseTwoLeg, phaseTwoLeg, s.limit_congr hform, hobjective]

theorem penaltyLeg_congr : s.penaltyLeg q = s.penaltyLeg p := by
  rw [penaltyLeg, penaltyLeg, penalty, penalty, s.limit_congr hform, hform, hobjective]

/-- What a solve comes to depends on the objective and the standard form only. -/
theorem outcome_congr : s.outcome q = s.outcome p := by
  have hone := s.phaseOneLeg_congr hobjective hform
  have htwo := s.phaseTwoLeg_congr hobjective hform
  have hpenalty := s.penaltyLeg_congr hobjective hform
  have hfinish : ∀ leg : Leg ℚ, leg.outcome q = leg.outcome p := fun leg => by
    rw [Leg.outcome, Leg.outcome, Outcome.finish, Outcome.finish, hobjective]
  have hboth : ∀ used, s.bothPhasesOutcome q used = s.bothPhasesOutcome p used := fun used => by
    simp only [bothPhasesOutcome, phaseOneStatus, secondLeg, feasibleBasis, driveOutPass, hone,
      htwo, hfinish]
  have hfrom : s.bothPhasesFrom? q = s.bothPhasesFrom? p := by
    rw [bothPhasesFrom?, bothPhasesFrom?, isRechecked, isRechecked, hpenalty, hform]
  have hdirect : s.directLeg q = s.directLeg p := by
    rw [directLeg, directLeg, hpenalty, hform, htwo]
  rw [outcome, outcome, hfrom, hdirect]
  simp only [hfinish, hboth]

theorem moves_congr : s.moves q = s.moves p := by
  have hlimit := s.limit_congr hform
  have hone := s.phaseOneLeg_congr hobjective hform
  have htwo := s.phaseTwoLeg_congr hobjective hform
  have hpenalty := s.penaltyLeg_congr hobjective hform
  have hlast : ∀ leg : Leg ℚ, leg.conclusion q = leg.conclusion p := fun leg => by
    rw [Leg.conclusion, Leg.conclusion, hobjective]
  have hphaseTwo : ∀ t used, s.phaseTwoMoves q t used = s.phaseTwoMoves p t used :=
    fun t used => by rw [phaseTwoMoves, phaseTwoMoves, htwo, hlimit, hlast]
  have hboth : ∀ used, s.bothPhasesMoves q used = s.bothPhasesMoves p used := fun used => by
    simp only [bothPhasesMoves, phaseOneRemarks, afterPhaseOne, phaseOneStatus, feasibleBasis,
      driveOutPass, hone, hlimit, hphaseTwo]
  simp only [moves, afterPenalty, hpenalty, hform, hlimit, hphaseTwo, hboth, hlast]

/-- What is shown differs at most in how the problem is stated. -/
theorem story_congr : (s.run q).solution.tableaus = (s.run p).solution.tableaus ∧
    (s.run q).solution.iterations = (s.run p).solution.iterations := by
  have hfold : ∀ (moves : List (Move ℚ)) (a b : Story ℚ),
      b.tableaus = a.tableaus ∧ b.iterations = a.iterations →
      (moves.foldl Story.make b).tableaus = (moves.foldl Story.make a).tableaus ∧
        (moves.foldl Story.make b).iterations = (moves.foldl Story.make a).iterations := by
    intro moves
    induction moves with
    | nil => exact fun _ _ h => h
    | cons m moves ih =>
      rintro a b ⟨htableaus, hiterations⟩
      apply ih
      rw [Story.make, Story.make, htableaus, hiterations]
      exact ⟨rfl, rfl⟩
  have hstory := hfold (s.moves p) (s.opening p).story (s.opening q).story ⟨rfl, rfl⟩
  rwa [← s.story_run p, ← s.moves_congr hobjective hform, ← s.story_run q] at hstory

theorem agrees_run : (s.run p).solution.Agrees (s.run q).solution := by
  have houtcome : (s.run q).solution.outcome = (s.run p).solution.outcome := by
    rw [outcome_run, outcome_run, s.outcome_congr hobjective hform]
  obtain ⟨htableaus, hiterations⟩ := s.story_congr hobjective hform
  exact ⟨congrArg Outcome.status houtcome, congrArg Outcome.assignment houtcome,
    congrArg Outcome.optimalValue houtcome, congrArg Outcome.solutionType houtcome,
    congrArg Outcome.degenerate houtcome, hiterations, htableaus⟩

end Congruence

end SimplexSettings

namespace Problem

variable {p : Problem ℚ}

/-- Rows may be written with either sign. In the plane the two surveys agree; the two solves agree
as well if no bound of the chosen rows is zero. -/
theorem solve_flipRows (hv : p.validate = .ok ()) (rows : Finset ℕ) :
    (∀ tolerance, p.variableCount = 2 → ∃ a b, p.solveByCorners tolerance = .ok a ∧
      (p.flipRows rows).solveByCorners tolerance = .ok b ∧ a.Agrees b) ∧
    ((∀ i ∈ rows, ∀ c, p.constraints[i]? = some c → c.bound ≠ 0) →
      ∀ s : SimplexSettings ℚ, ∃ a b, s.solve p = .ok a ∧
        s.solve (p.flipRows rows) = .ok b ∧ a.Agrees b) := by
  have hv' : (p.flipRows rows).validate = .ok () := (p.validate_flipRows rows).trans hv
  constructor
  · intro tolerance h2
    exact ⟨_, _, solveByCorners_of_validate tolerance hv h2,
      solveByCorners_of_validate tolerance hv' h2, p.agrees_optimum rows tolerance⟩
  · intro hbounds s
    have hform : (p.flipRows rows).standardForm = p.standardForm :=
      standardForm_congr rfl (p.normalizedRows_flipRows rows hbounds)
    exact ⟨_, _, SimplexSettings.solve_of_validate hv, SimplexSettings.solve_of_validate hv',
      s.agrees_run rfl hform⟩

/-- All relations, a bound of each sign, and a row without coefficients. -/
def fourRowProblem : Problem ℚ :=
  ⟨⟨[3, 2], .maximize⟩,
    [⟨[1, 1], .le, 4⟩, ⟨[-1, -2], .le, -2⟩, ⟨[1, -1], .eq, 1⟩, ⟨[0, 0], .ge, -5⟩]⟩

theorem solve_flipRows_fourRowProblem : fourRowProblem.validate = .ok () ∧
    (fourRowProblem.flipRows {0, 1, 3}).constraints =
      [⟨[-1, -1], .ge, -4⟩, ⟨[1, 2], .ge, 2⟩, ⟨[1, -1], .eq, 1⟩, ⟨[0, 0], .le, 5⟩] ∧
    (∃ a b, fourRowProblem.solveByCorners 0 = .ok a ∧
      (fourRowProblem.flipRows {0, 1, 3}).solveByCorners 0 = .ok b ∧ a.Agrees b ∧
      b.optimalPoints = [⟨5 / 2, 3 / 2⟩] ∧
      b.trace.filterMap Event.flag? = [("R4", true)]) ∧
    ∃ a b, (⟨none, 0, .twoPhase, 1⟩ : SimplexSettings ℚ).solve fourRowProblem = .ok a ∧
      (⟨none, 0, .twoPhase, 1⟩ : SimplexSettings ℚ).solve (fourRowProblem.flipRows {0, 1, 3}) =
        .ok b ∧ a.Agrees b ∧ b.assignment = [5 / 2, 3 / 2] ∧ b.iterations = 3 := by
  have hv : fourRowProblem.validate = .ok () := by decide +kernel
  obtain ⟨hplane, hsimplex⟩ := solve_flipRows hv {0, 1, 3}
  obtain ⟨a, b, ha, hb, hab⟩ := hplane 0 rfl
  obtain ⟨c, d, hc, hd, hcd⟩ := hsimplex (by decide +kernel) ⟨none, 0, .twoPhase, 1⟩
  obtain rfl := Except.ok.inj ((solveByCorners_of_validate 0 hv rfl).symm.trans ha)
  obtain ⟨-, rfl⟩ := SimplexSettings.validate_of_solve hc
  refine ⟨hv, by decide +kernel, ⟨_, b, ha, hb, hab, ?_, ?_⟩, _, d, hc, hd, hcd, ?_, ?_⟩
  · rw [hab.optimalPoints_eq]
    decide +kernel
  · rw [hab.flags_eq]
    decide +kernel
  · rw [hcd.assignment_eq]
    decide +kernel
  · rw [hcd.iterations_eq]
    decide +kernel

end Problem

end LinearProgram
