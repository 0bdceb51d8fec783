import LinearProgram.Proofs.CornerTrace
import LinearProgram.Proofs.Digits

/-! # Flagged rows

Corner enumeration flags the rows whose coefficients are all zero up to the tolerance, with the
verdict on a left side of zero, and checks them all the same. On a row of zeros every check agrees
with the flag. A small coefficient keeps the left side small beside the point only, so far away the
flag of such a row can be wrong.
-/

namespace LinearProgram

theorem rowLabel_injective : Function.Injective rowLabel := fun _ _ h =>
  Nat.succ_injective (toString_injective ((String.append_right_inj "R").mp h))

theorem rowLabel_ne_coordinate (i : ℕ) : "x" ≠ rowLabel i ∧ "y" ≠ rowLabel i := by
  constructor <;> intro h <;> simpa [rowLabel] using congrArg String.toList h

variable {α : Type} [Scalar α]

omit [Scalar α] in
def Event.isFlag : Event α → Bool
  | .degenerateConstraint .. => true
  | _ => false

namespace Problem

variable {tolerance : α} {p : Problem α} {k : ℕ} {c : Constraint α} {point : Point α}

/-- A trace flags the degenerate rows in order. -/
theorem flags_trace (tolerance : α) (p : Problem α) (s : Survey α) :
    (p.optimum tolerance s).trace.filter Event.isFlag = p.degenerateRows tolerance := by
  have hstatement : (p.statement (variableNames 2)).filter Event.isFlag = [] := rfl
  have hrows : (p.degenerateRows tolerance).filter Event.isFlag = p.degenerateRows tolerance := by
    refine List.filter_eq_self.mpr fun e he => ?_
    obtain ⟨⟨c, i⟩, -, hc⟩ := List.mem_filterMap.mp he
    obtain ⟨-, rfl⟩ : _ ∧ _ = e := by simpa using hc
    rfl
  have hsurvey : s.events.filter Event.isFlag = [] := by
    rw [Survey.events, List.filter_append, List.filter_map, List.filter_flatMap]
    have hcrossing : ∀ c : Crossing α, c.event.isFlag = false := fun c => by
      rw [Crossing.event]
      cases c.point <;> rfl
    have hcandidate : ∀ c : Candidate α, c.events.filter Event.isFlag = [] := fun c => by
      rw [Candidate.events]
      cases c.verdict <;> rfl
    simp [Function.comp_def, hcrossing, hcandidate]
  have hvertices : ∀ vertices : List (Vertex α), (vertices.map fun v =>
      Event.vertexEvaluation v.point v.value).filter Event.isFlag = [] := fun vertices => by
    rw [List.filter_map]
    simp [Function.comp_def, Event.isFlag]
  rw [optimum]
  cases p.objective.best (s.vertices p.objective) with
  | none => simp [List.filter_append, hstatement, hrows, hsurvey, Event.isFlag]
  | some best => simp [List.filter_append, hstatement, hrows, hsurvey, hvertices, Event.isFlag]

theorem exists_row_of_flag {s : Survey α} {label : String} {relation : Relation} {bound : α}
    {always : Bool}
    (h : .degenerateConstraint label relation bound always ∈ (p.optimum tolerance s).trace) :
    ∃ k c, p.constraints[k]? = some c ∧ c.isDegenerate tolerance = true ∧ label = rowLabel k ∧
      relation = c.relation ∧ bound = c.bound ∧ always = c.relation.holds tolerance 0 c.bound := by
  have hmem : .degenerateConstraint label relation bound always ∈ p.degenerateRows tolerance := by
    rw [← flags_trace tolerance p s]
    exact List.mem_filter.mpr ⟨h, rfl⟩
  obtain ⟨⟨c, k⟩, hk, hflag⟩ := List.mem_filterMap.mp hmem
  obtain ⟨hc, rfl, rfl, rfl, rfl⟩ : c.isDegenerate tolerance = true ∧ rowLabel k = label ∧
      c.relation = relation ∧ c.bound = bound ∧ c.relation.holds tolerance 0 c.bound = always := by
    simpa using hflag
  exact ⟨k, c, List.mk_mem_zipIdx_iff_getElem?.mp hk, hc, rfl, rfl, rfl, rfl⟩

/-- The check of a row at a point. -/
def rowCheck (tolerance : α) (k : ℕ) (c : Constraint α) (point : Point α) : Check α :=
  ⟨rowLabel k, c.lhs point.coords, c.relation, c.bound, c.isSatisfied tolerance point.coords⟩

theorem mem_checksAt (hk : p.constraints[k]? = some c) :
    rowCheck tolerance k c point ∈ p.checksAt tolerance point := by
  refine List.mem_cons_of_mem _ (List.mem_cons_of_mem _ ?_)
  exact List.mem_map.mpr ⟨(c, k), List.mk_mem_zipIdx_iff_getElem?.mpr hk, rfl⟩

theorem eq_rowCheck_of_label (hk : p.constraints[k]? = some c) {check : Check α}
    (hmem : check ∈ p.checksAt tolerance point) (hlabel : check.label = rowLabel k) :
    check = rowCheck tolerance k c point := by
  rcases List.mem_cons.mp hmem with rfl | hmem
  · exact absurd hlabel (rowLabel_ne_coordinate k).1
  rcases List.mem_cons.mp hmem with rfl | hmem
  · exact absurd hlabel (rowLabel_ne_coordinate k).2
  obtain ⟨⟨d, i⟩, hi, rfl⟩ := List.mem_map.mp hmem
  obtain rfl : i = k := rowLabel_injective hlabel
  rw [List.mk_mem_zipIdx_iff_getElem?, hk] at hi
  obtain rfl := Option.some.inj hi
  rfl

theorem satisfied_rowCheck (h : c.lhs point.coords = 0) :
    (rowCheck tolerance k c point).satisfied = c.relation.holds tolerance 0 c.bound :=
  congrArg (c.relation.holds tolerance · c.bound) h

/-- Without a candidate that passes its checks there is no corner. -/
theorem corners_survey_eq_nil
    (h : ∀ c ∈ (p.survey tolerance).candidates, c.checks.all (·.satisfied) = false) :
    (p.survey tolerance).corners = [] := by
  refine List.filterMap_eq_nil_iff.mpr fun c hc => ?_
  rw [Candidate.corner?, ((checks_of_mem_sift c hc).2.mpr (h c hc))]

end Problem

/-- What the trace says of a flagged row. The flag is the verdict on a left side of zero. A check of
the row finds a left side that is small beside the point, and agrees with the flag where it is zero.
A row of zeros is rightly flagged: it makes the problem infeasible or rejects no candidate. -/
structure CornerSolution.Flags (tolerance : ℚ) (c : Constraint ℚ) (label : String) (always : Bool)
    (solution : CornerSolution ℚ) : Prop where
  flag_eq : always = c.relation.holds tolerance 0 c.bound
  checked : ∀ point checks feasible, .feasibilityCheck point checks feasible ∈ solution.trace →
    ∀ check ∈ checks, check.label = label → check.lhs = c.lhs point.coords ∧
      |check.lhs| ≤ tolerance * (|point.x| + |point.y|) ∧
      (check.lhs = 0 → check.satisfied = always)
  agrees : (∀ a ∈ c.coefficients, a = 0) → ∀ point checks feasible,
    .feasibilityCheck point checks feasible ∈ solution.trace →
      ∀ check ∈ checks, check.label = label → check.satisfied = always
  infeasible : (∀ a ∈ c.coefficients, a = 0) → always = false → solution.status = .infeasible
  redundant : (∀ a ∈ c.coefficients, a = 0) → always = true → ∀ point checks feasible,
    .feasibilityCheck point checks feasible ∈ solution.trace →
      feasible = (checks.filter (·.label ≠ label)).all (·.satisfied)

namespace Constraint

variable {c : Constraint ℚ} {tolerance : ℚ}

/-- Coefficients within the tolerance of zero make a left side that is small beside the point. -/
theorem abs_lhs_le_of_isDegenerate (hc : c.coefficients.length = 2)
    (h : c.isDegenerate tolerance = true) (q : Point ℚ) :
    |c.lhs q.coords| ≤ tolerance * (|q.x| + |q.y|) := by
  obtain ⟨coefficients, relation, bound⟩ := c
  obtain ⟨a, b, rfl⟩ := List.length_eq_two.mp hc
  obtain ⟨ha, hb⟩ : |a| ≤ tolerance ∧ |b| ≤ tolerance := by
    simpa [isDegenerate, Scalar.abs_eq] using h
  have hlhs : lhs ⟨[a, b], relation, bound⟩ q.coords = a * q.x + b * q.y := by
    simp [lhs, Point.coords, Scalar.dot, Scalar.sum_eq]
  calc |lhs ⟨[a, b], relation, bound⟩ q.coords|
      = |a * q.x + b * q.y| := by rw [hlhs]
    _ ≤ |a * q.x| + |b * q.y| := abs_add_le _ _
    _ = |a| * |q.x| + |b| * |q.y| := by rw [abs_mul, abs_mul]
    _ ≤ tolerance * |q.x| + tolerance * |q.y| := by gcongr
    _ = tolerance * (|q.x| + |q.y|) := (mul_add _ _ _).symm

theorem lhs_of_zeros (h : ∀ a ∈ c.coefficients, a = 0) (x : List ℚ) : c.lhs x = 0 := by
  rw [lhs, dot_eq_combine]
  refine Finset.sum_eq_zero fun j hj => ?_
  rw [List.getD_eq_getElem _ _ (Finset.mem_range.mp hj), h _ (List.getElem_mem _), zero_mul]

end Constraint

namespace Problem

variable {p : Problem ℚ} {tolerance : ℚ} {k : ℕ} {c : Constraint ℚ}

section Zeros

variable (hk : p.constraints[k]? = some c) (hzeros : ∀ a ∈ c.coefficients, a = 0)

include hk hzeros

theorem satisfied_of_zeros {point : Point ℚ} {check : Check ℚ}
    (hcheck : check ∈ p.checksAt tolerance point) (hlabel : check.label = rowLabel k) :
    check.satisfied = c.relation.holds tolerance 0 c.bound := by
  rw [eq_rowCheck_of_label hk hcheck hlabel]
  exact satisfied_rowCheck (c.lhs_of_zeros hzeros _)

/-- A row of zeros that does not hold leaves no corner. -/
theorem corners_eq_nil_of_zeros (hnever : c.relation.holds tolerance 0 c.bound = false) :
    (p.survey tolerance).corners = [] := by
  refine corners_survey_eq_nil fun d hd => ?_
  rw [(checks_of_mem_sift d hd).1, List.all_eq_false]
  refine ⟨_, mem_checksAt hk, ?_⟩
  rw [satisfied_rowCheck (c.lhs_of_zeros hzeros _), hnever]
  exact Bool.false_ne_true

/-- A row of zeros that holds rejects nothing that the other checks let pass. -/
theorem all_checksAt_of_zeros (halways : c.relation.holds tolerance 0 c.bound = true)
    (point : Point ℚ) : (p.checksAt tolerance point).all (·.satisfied) =
      ((p.checksAt tolerance point).filter (·.label ≠ rowLabel k)).all (·.satisfied) := by
  rw [List.all_filter, Bool.eq_iff_iff, List.all_eq_true, List.all_eq_true]
  refine forall₂_congr fun check hcheck => ?_
  by_cases hlabel : check.label = rowLabel k
  · simp [hlabel, satisfied_of_zeros hk hzeros hcheck hlabel, halways]
  · simp [hlabel]

end Zeros

theorem flags_optimum (hk : p.constraints[k]? = some c) (hlength : c.coefficients.length = 2)
    (hc : c.isDegenerate tolerance = true) :
    (p.optimum tolerance (p.survey tolerance)).Flags tolerance c (rowLabel k)
      (c.relation.holds tolerance 0 c.bound) where
  flag_eq := rfl
  checked point checks feasible hmem check hcheck hlabel := by
    obtain ⟨rfl, -⟩ := checks_trace hmem
    obtain rfl := eq_rowCheck_of_label hk hcheck hlabel
    exact ⟨rfl, c.abs_lhs_le_of_isDegenerate hlength hc point, satisfied_rowCheck⟩
  agrees hzeros point checks feasible hmem check hcheck hlabel := by
    obtain ⟨rfl, -⟩ := checks_trace hmem
    exact satisfied_of_zeros hk hzeros hcheck hlabel
  infeasible hzeros hnever := by
    rw [status_optimum, if_pos (corners_eq_nil_of_zeros hk hzeros hnever)]
  redundant hzeros halways point checks feasible hmem := by
    obtain ⟨rfl, rfl⟩ := checks_trace hmem
    exact all_checksAt_of_zeros hk hzeros halways point

/-- A problem in the plane is solved, and what the trace says of its flagged rows is true where
their left sides are zero. -/
theorem solveByCorners_flags (hv : p.validate = .ok ()) (h2 : p.variableCount = 2)
    (tolerance : ℚ) : ∃ solution, p.solveByCorners tolerance = .ok solution ∧
      ∀ label relation bound always,
        .degenerateConstraint label relation bound always ∈ solution.trace →
          ∃ k c, p.constraints[k]? = some c ∧ label = rowLabel k ∧ relation = c.relation ∧
            bound = c.bound ∧ solution.Flags tolerance c label always := by
  refine ⟨_, solveByCorners_of_validate tolerance hv h2, fun label relation bound always h => ?_⟩
  obtain ⟨k, c, hk, hc, rfl, rfl, rfl, rfl⟩ := exists_row_of_flag h
  have hlength := (p.length_of_validate hv c (List.mem_of_getElem? hk)).trans h2
  exact ⟨k, c, hk, rfl, rfl, rfl, flags_optimum hk hlength hc⟩

/-- A row of zeros that no point satisfies. -/
def emptyRowProblem : Problem ℚ :=
  ⟨⟨[1, 1], .maximize⟩, [⟨[1, 1], .le, 4⟩, ⟨[0, 0], .ge, 5⟩]⟩

theorem solveByCorners_flags_emptyRowProblem : emptyRowProblem.validate = .ok () ∧
    ∃ solution, emptyRowProblem.solveByCorners Scalar.defaultTolerance = .ok solution ∧
      solution.Flags Scalar.defaultTolerance ⟨[0, 0], .ge, 5⟩ "R2" false ∧
      solution.status = .infeasible := by
  have hv : emptyRowProblem.validate = .ok () := by decide +kernel
  obtain ⟨solution, hsolve, hflags⟩ := solveByCorners_flags hv rfl Scalar.defaultTolerance
  obtain rfl := Except.ok.inj ((solveByCorners_of_validate _ hv rfl).symm.trans hsolve)
  obtain ⟨k, c, hk, hlabel, -, -, hc⟩ := hflags "R2" .ge 5 false (by decide +kernel)
  obtain rfl : k = 1 := rowLabel_injective hlabel.symm
  obtain rfl : ⟨[0, 0], .ge, 5⟩ = c := Option.some.inj hk
  exact ⟨hv, _, hsolve, hc, hc.infeasible (by simp) rfl⟩

/-- The first row has a small coefficient; at `x = 10 ^ 12` its left side is `500`. -/
def farProblem (relation : Relation) : Problem ℚ :=
  ⟨⟨[1, 0], .maximize⟩, [⟨[5e-10, 0], relation, 1⟩, ⟨[1, 0], .le, 1e12⟩, ⟨[0, 1], .le, 1⟩]⟩

/-- A flag that says never stands beside a check that succeeds at an optimum, and one that says
always beside the check that rejects this candidate. -/
theorem flags_ne_checks :
    let found (relation : Relation) : CornerSolution ℚ :=
      (farProblem relation).optimum Scalar.defaultTolerance
        ((farProblem relation).survey Scalar.defaultTolerance)
    let checks (relation : Relation) : List (Check ℚ) :=
      (farProblem relation).checksAt Scalar.defaultTolerance ⟨1e12, 1⟩
    (∀ relation ∈ [Relation.ge, .le], (farProblem relation).validate = .ok ()) ∧
    .degenerateConstraint "R1" .ge 1 false ∈ (found .ge).trace ∧
    .feasibilityCheck ⟨1e12, 1⟩ (checks .ge) true ∈ (found .ge).trace ∧
    ⟨"R1", 500, .ge, 1, true⟩ ∈ checks .ge ∧ (found .ge).status = .optimal ∧
    .degenerateConstraint "R1" .le 1 true ∈ (found .le).trace ∧
    .feasibilityCheck ⟨1e12, 1⟩ (checks .le) false ∈ (found .le).trace ∧
    (checks .le).filter (fun c => !c.satisfied) = [⟨"R1", 500, .le, 1, false⟩] := by
  decide +kernel

end Problem

end LinearProgram
