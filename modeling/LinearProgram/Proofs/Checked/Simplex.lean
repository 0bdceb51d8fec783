import LinearProgram.Proofs.Checked.Build
import LinearProgram.Proofs.Checked.Stage

/-! # Checked solving

The simplex method on a table. A problem with lists of one length is solved without a fault, with
the same solution, under any settings whose tolerance is not negative.
-/

namespace LinearProgram

namespace Checked

section Definitions

variable {α : Type} [Scalar α]

/-- The number of columns of a kind. -/
def Table.count (g : Table α) (kind : ColumnKind) : ℕ := g.columns.countP (·.kind == kind)

/-- Ten pivots for every row and column of the table, unless a number is set. -/
def limit (s : SimplexSettings α) (g : Table α) : Except Fault ℕ := do
  let first ← read g.data 0
  .ok (s.maxIterations.getD (10 * (g.data.length + first.length)))

/-- Ends a solve at an optimal table. -/
def finish (tolerance : α) (p : Problem α) (g : Table α) (r : Record α) :
    Except Fault (SimplexSolution α) := do
  let assignment ← g.assignment
  let value := p.objective.evaluate assignment
  let ties ← g.ties tolerance
  let solutionType := if ties.isEmpty then Multiplicity.unique else .multiple
  let degenerate ← g.isDegenerate tolerance
  let columns ← front g.columns g.decisions
  .ok ⟨.optimal, assignment, some value, some solutionType, degenerate, r.iterations, r.tableaus,
    r.trace ++ [.solution value assignment (columns.map (·.name))]⟩

/-- Whether a table that minimizes the sum of the artificials still has some of it. -/
def hasArtificialPart (tolerance : α) (g : Table α) : Except Fault Bool := do
  let w ← g.objectiveValue
  if tolerance * Scalar.larger 1 (Scalar.abs w) < w then .ok true
  else
    let positive ← g.positiveArtificials tolerance
    .ok !positive.isEmpty

/-- Minimizes the sum of the artificials. It stops with a status, or the table has a feasible
basis. -/
def phaseOne (s : SimplexSettings α) (limit : ℕ) (g : Table α) (r : Record α) :
    Except Fault (Status × Record α ⊕ Table α × Record α) := do
  let r := r.note (.phaseStarted 1)
  let (ending, g, r) ← Table.stage s.tolerance .minimize (fun _ => .ok true) (some 1)
    "Initial tableau, phase 1 (minimize W)" limit (← g.artificialCosts) g r
  match ending with
  | .unbounded .. => .ok (.inl (.infeasible, r))
  | .outOfPivots => .ok (.inl (.iterationLimit, r))
  | .optimal => do
    let w ← g.objectiveValue
    let r := r.note (.phaseCompleted 1 w)
    if ← hasArtificialPart s.tolerance g then
      .ok (.inl (.infeasible,
        r.note (.infeasible ("phase 1 ended with W = " ++ Scalar.fixed 6 w ++ " > 0"))))
    else
      let state ← g.driveOut s.tolerance r
      .ok (.inr state)

/-- Optimizes the objective with the artificial columns barred. -/
def phaseTwo (s : SimplexSettings α) (p : Problem α) (limit : ℕ) (g : Table α) (r : Record α) :
    Except Fault (SimplexSolution α) := do
  let barred ← (List.range g.columns.length).mapM g.isArtificial
  let (ending, g, r) ← Table.stage s.tolerance p.objective.sense
    (fun j => do .ok !(← read barred j)) (some 2) "Initial tableau, phase 2" limit
    (← g.costs p.objective.coefficients 0) g r
  match ending with
  | .optimal => finish s.tolerance p g r
  | .unbounded .. => .ok (r.stop .unbounded).solution
  | .outOfPivots => .ok (r.stop .iterationLimit).solution

def bothPhases (s : SimplexSettings α) (p : Problem α) (limit : ℕ) (g : Table α) (r : Record α) :
    Except Fault (SimplexSolution α) := do
  match ← phaseOne s limit g r with
  | .inl (status, r) => .ok (r.stop status).solution
  | .inr (g, r) => phaseTwo s p limit g (r.note (.phaseStarted 2))

/-- What follows a stage with a penalty that did not run out of pivots. Where it leaves an
artificial positive, both phases start from a fresh table. -/
def settle (s : SimplexSettings α) (p : Problem α) (limit : ℕ) (ending : Ending α) (g : Table α)
    (r : Record α) : Except Fault (SimplexSolution α) := do
  let positive ← g.positiveArtificials s.tolerance
  match positive.head? with
  | some row =>
    let name ← g.basicName row
    let value ← g.basicValue row
    bothPhases s p limit (← build p) (r.note (.penaltyRecheck name value))
  | none =>
    match ending with
    | .unbounded .. => .ok (r.stop .unbounded).solution
    | _ => finish s.tolerance p g r

/-- One stage in which artificial variables cost the penalty. -/
def penalized (s : SimplexSettings α) (p : Problem α) (limit : ℕ) (g : Table α) (r : Record α) :
    Except Fault (SimplexSolution α) := do
  let cost := match p.objective.sense with
    | .maximize => -s.penalty p
    | .minimize => s.penalty p
  let (ending, g, r) ← Table.stage s.tolerance p.objective.sense (fun _ => .ok true) none
    "Initial tableau" limit (← g.costs p.objective.coefficients cost) g r
  match ending with
  | .outOfPivots => .ok (r.stop .iterationLimit).solution
  | ending => settle s p limit ending g r

/-- The record before the first stage: the problem and its standard form. -/
def opening (s : SimplexSettings α) (p : Problem α) (g : Table α) : Record α :=
  let names := numberedNames "x" p.variableCount
  { trace := [.objective p.objective.sense p.objective.coefficients names,
      .constraintList p.constraints names] ++ p.normalizations ++
      [.standardForm s.discipline (g.columns.map (·.name)) (g.count .slack) (g.count .surplus)
        (g.count .artificial)]
    tableaus := []
    iterations := 0
    log := [] }

/-- The solve of a problem that has been validated. -/
def simplex (s : SimplexSettings α) (p : Problem α) : Except Fault (SimplexSolution α) := do
  let g ← build p
  let limit ← limit s g
  let r := opening s p g
  match s.discipline with
  | .bigM => penalized s p limit g r
  | .twoPhase =>
    if 0 < g.count .artificial then bothPhases s p limit g r else phaseTwo s p limit g r

end Definitions

section Finish

variable {t : Tableau ℚ} (h : t.IsShaped)

include h

theorem finish_eq_ok (tolerance : ℚ) (p : Problem ℚ) (record : Record ℚ) :
    finish tolerance p t.table (quiet record) = .ok (record.finish tolerance p t).solution := by
  obtain ⟨ties, hties, hempty⟩ := Table.ties_eq_ok h tolerance
  have hfront : front t.table.columns t.table.decisions =
      .ok (t.columns.take (t.count .decision)) :=
    front_eq_ok List.countP_le_length
  have hnames : t.columnNames.take (t.count .decision) =
      (t.columns.take (t.count .decision)).map (·.name) := List.map_take.symm
  rw [finish, Table.assignment_eq_ok h, ok_bind, hties, ok_bind, Table.isDegenerate_eq_ok h,
    ok_bind, hfront, ok_bind, hempty, Record.finish, hnames]
  cases t.hasTie tolerance <;> rfl

theorem hasArtificialPart_eq_ok (tolerance : ℚ) :
    hasArtificialPart tolerance t.table = .ok (t.hasArtificialPart tolerance) := by
  obtain ⟨positive, hpositive, hcases⟩ := Table.positiveArtificials_eq_ok h tolerance
  have hempty : (!positive.isEmpty) = (t.positiveArtificial? tolerance).isSome := by
    obtain ⟨rfl, hnone⟩ | ⟨row, rest, r, rfl, -, hsome⟩ := hcases
    · rw [hnone]; rfl
    · rw [hsome]; rfl
  rw [hasArtificialPart, Table.objectiveValue_eq_ok h, ok_bind, hpositive, ok_bind, hempty,
    Tableau.hasArtificialPart]
  split
  · next hlt => rw [decide_eq_true hlt, Bool.true_or]
  · next hlt => rw [decide_eq_false hlt, Bool.false_or]

end Finish

/-- How the first phase ends, on tables. -/
def phaseOneEnd : PhaseOne ℚ → Status × Record ℚ ⊕ Table ℚ × Record ℚ
  | .stopped status record => .inl (status, quiet record)
  | .feasible t record => .inr (t.table, quiet record)

section Solve

variable {s : SimplexSettings ℚ} {p : Problem ℚ} (h0 : 0 ≤ s.tolerance)
  (hl : ∀ c ∈ p.constraints, c.coefficients.length = p.variableCount)

include hl in
theorem isShaped_standardForm : p.standardForm.IsShaped :=
  ⟨(p.isRectangular_standardForm hl).width, List.length_replicate,
    fun _ => (p.isSolved_standardForm hl).basic_lt⟩

include hl in
theorem limit_eq_ok (s : SimplexSettings ℚ) : limit s p.standardForm.table = .ok (s.limit p) := by
  obtain ⟨first, hfirst⟩ : ∃ first, p.standardForm.table.data[0]? = some first :=
    ⟨_, List.getElem?_eq_getElem (by rw [Table.length_data]; omega)⟩
  rw [limit, read_eq_ok hfirst, ok_bind, Table.length_data,
    Table.length_of_getElem?_data (isShaped_standardForm hl) hfirst]
  rfl

include h0 hl

theorem phaseOne_eq_ok (record : Record ℚ) :
    phaseOne s (s.limit p) p.standardForm.table (quiet record) =
      .ok (phaseOneEnd (s.phaseOne p record)) := by
  have hlen := Problem.length_costs p.standardForm (List.replicate p.variableCount 0) 1
  have hshape : (s.phaseOneLeg p record.iterations).stage.final.IsShaped :=
    Leg.isShaped_stage h0 (isShaped_standardForm hl) hlen
  rw [phaseOne, Table.artificialCosts_eq_ok p.standardForm p.variableCount, ok_bind]
  refine (bind_of_eq (Table.stage_eq_ok (s.phaseOneLeg p record.iterations) h0
    (isShaped_standardForm hl) hlen (fun _ _ => rfl) (some 1) _ _
    (record.note (.phaseStarted 1)) rfl) _).trans ?_
  simp only [SimplexSettings.phaseOne]
  cases hend : (s.phaseOneLeg p record.iterations).stage.ending with
  | unbounded col ratios => rfl
  | outOfPivots => rfl
  | optimal =>
    simp only [Table.objectiveValue_eq_ok hshape, ok_bind, hasArtificialPart_eq_ok hshape,
      note_quiet, Table.driveOut_eq_ok hshape h0]
    split <;> rfl

theorem shape_of_phaseOne {record record' : Record ℚ} {t : Tableau ℚ}
    (hphase : s.phaseOne p record = .feasible t record') :
    t.IsShaped ∧ t.columns = p.standardColumns := by
  have hshape : (s.phaseOneLeg p record.iterations).stage.final.IsShaped :=
    Leg.isShaped_stage h0 (isShaped_standardForm hl) (Problem.length_costs ..)
  obtain ⟨r', -, hend⟩ := s.phaseOne_eq p record
  rw [hend] at hphase
  split at hphase
  · cases hphase
  · cases hphase
    exact ⟨hshape.driveOut _, (Tableau.columns_driveOut ..).trans (Leg.columns_final _)⟩

omit hl in
/-- The second phase starts from a tableau with the columns of the problem. -/
theorem phaseTwo_eq_ok {t : Tableau ℚ} (h : t.IsShaped) (hc : t.columns = p.standardColumns)
    (record : Record ℚ) : phaseTwo s p (s.limit p) t.table (quiet record) =
      .ok (s.phaseTwo p t record).solution := by
  have hlen := Problem.length_costs t p.objective.coefficients 0
  have hshape : (s.phaseTwoLeg p t record.iterations).stage.final.IsShaped :=
    Leg.isShaped_stage h0 h hlen
  have hbarred : (List.range t.table.columns.length).mapM t.table.isArtificial =
      .ok ((List.range t.columnCount).map t.isArtificial) :=
    mapM_eq_ok fun j hj => Table.isArtificial_eq_ok (List.mem_range.mp hj)
  rw [phaseTwo, hbarred, ok_bind, Table.costs_eq_ok hc rfl, ok_bind]
  refine (bind_of_eq (Table.stage_eq_ok (s.phaseTwoLeg p t record.iterations) h0 h hlen
    (fun j hj => ?_) (some 2) _ _ record rfl) _).trans ?_
  · have hread : ((List.range t.columnCount).map t.isArtificial)[j]? = some (t.isArtificial j) := by
      rw [List.getElem?_map, List.getElem?_range (show j < t.columnCount from hj), Option.map_some]
    rw [read_eq_ok hread, ok_bind]
    rfl
  · simp only [SimplexSettings.phaseTwo]
    cases hend : (s.phaseTwoLeg p t record.iterations).stage.ending with
    | unbounded col ratios => rfl
    | outOfPivots => rfl
    | optimal => exact finish_eq_ok hshape _ _ _

theorem bothPhases_eq_ok (record : Record ℚ) :
    bothPhases s p (s.limit p) p.standardForm.table (quiet record) =
      .ok (s.bothPhases p record).solution := by
  rw [bothPhases, phaseOne_eq_ok h0 hl, ok_bind, SimplexSettings.bothPhases]
  cases hphase : s.phaseOne p record with
  | stopped status record' => rfl
  | feasible t record' =>
    obtain ⟨h, hc⟩ := shape_of_phaseOne h0 hl hphase
    exact phaseTwo_eq_ok h0 h hc (record'.note (.phaseStarted 2))

/-- The verdict behind a stage with a penalty; what is logged does not matter. -/
theorem settle_eq_ok {t : Tableau ℚ} (h : t.IsShaped) (ending : Ending ℚ) (record : Record ℚ)
    (entry : Log.Entry ℚ) : settle s p (s.limit p) ending t.table (quiet record) = .ok
      (match t.positiveArtificial? s.tolerance, ending with
        | some r, _ => s.bothPhases p
          ((record.note (.penaltyRecheck (t.basicName r) r.solution)).write entry)
        | none, .unbounded .. => record.stop .unbounded
        | none, _ => record.finish s.tolerance p t).solution := by
  obtain ⟨positive, hpositive, hcases⟩ := Table.positiveArtificials_eq_ok h s.tolerance
  unfold settle
  rw [hpositive, ok_bind]
  obtain ⟨rfl, hnone⟩ | ⟨row, rest, r, rfl, hr, hsome⟩ := hcases
  · rw [hnone]
    cases ending with
    | unbounded col ratios => rfl
    | optimal => exact finish_eq_ok h _ _ _
    | outOfPivots => exact finish_eq_ok h _ _ _
  · rw [hsome]
    simp only [List.head?_cons, Table.basicName_eq_ok h hr, Table.basicValue_eq_ok h hr, ok_bind,
      build_eq_ok hl, note_quiet]
    exact bothPhases_eq_ok h0 hl
      ((record.note (.penaltyRecheck (t.basicName r) r.solution)).write entry)

theorem penalized_eq_ok (record : Record ℚ) (hr : record.iterations = 0) :
    penalized s p (s.limit p) p.standardForm.table (quiet record) =
      .ok (s.penalized p record).solution := by
  have hlen : (s.penaltyLeg p).costs.length = p.standardForm.columnCount :=
    Problem.length_costs ..
  have hshape : (s.penaltyLeg p).stage.final.IsShaped :=
    Leg.isShaped_stage h0 (isShaped_standardForm hl) hlen
  rw [penalized, Table.costs_eq_ok rfl rfl, ok_bind]
  refine (bind_of_eq (Table.stage_eq_ok (s.penaltyLeg p) h0 (isShaped_standardForm hl) hlen
    (fun _ _ => rfl) none _ _
    (record.write (Log.debug "artificial penalty" [("big_m", .number (s.penalty p))]))
    (by rw [Record.iterations_write, hr]; rfl)) _).trans ?_
  simp only [SimplexSettings.penalized]
  cases hend : (s.penaltyLeg p).stage.ending with
  | outOfPivots => rfl
  | unbounded col ratios =>
    refine (settle_eq_ok h0 hl hshape _ _
      (Log.debug "artificial still positive under Big M, checking feasibility" [])).trans ?_
    cases (s.penaltyLeg p).stage.final.positiveArtificial? s.tolerance <;> rfl
  | optimal =>
    refine (settle_eq_ok h0 hl hshape _ _
      (Log.debug "artificial still positive under Big M, checking feasibility" [])).trans ?_
    cases (s.penaltyLeg p).stage.final.positiveArtificial? s.tolerance <;> rfl

theorem simplex_eq_ok : simplex s p = .ok (s.run p).solution := by
  have hopening : opening s p p.standardForm.table = quiet (s.opening p) := rfl
  rw [simplex, build_eq_ok hl, ok_bind, limit_eq_ok hl, ok_bind, hopening, SimplexSettings.run]
  cases s.discipline with
  | bigM => exact penalized_eq_ok h0 hl (s.opening p) rfl
  | twoPhase =>
    have hcount : p.standardForm.table.count .artificial = p.standardForm.count .artificial := rfl
    simp only [hcount]
    split
    · exact bothPhases_eq_ok h0 hl (s.opening p)
    · exact phaseTwo_eq_ok h0 (isShaped_standardForm hl) rfl (s.opening p)

end Solve

end Checked

end LinearProgram
