import LinearProgram.Proofs.Checked.Simplex
import LinearProgram.Proofs.Corners

/-! # Checked corners

The enumeration of corners with every access and division checked. Lines only cross where their
determinant is not zero, and the best vertex is looked for where there is one. So neither solver
has a fault on a problem that is accepted.
-/

namespace LinearProgram

namespace Checked

section Definitions

variable {α : Type} [Scalar α]

/-- The line of a constraint, if it has one. -/
def boundaryLine (tolerance : α) (c : Constraint α) (i : ℕ) : Except Fault (Option (Line α)) := do
  if c.isDegenerate tolerance then .ok none
  else
    let a ← read c.coefficients 0
    let b ← read c.coefficients 1
    .ok (some ⟨rowLabel i, a, b, c.bound⟩)

def boundaryLines (tolerance : α) (p : Problem α) : Except Fault (List (Line α)) := do
  let lines ← p.constraints.zipIdx.mapM fun (c, i) => boundaryLine tolerance c i
  .ok (lines.filterMap id ++ axes)

def intersection (tolerance : α) (l m : Line α) : Except Fault (Option (Point α)) := do
  let det := l.a * m.b - m.a * l.b
  let size := Scalar.larger (Scalar.abs (l.a * m.b)) (Scalar.abs (m.a * l.b))
  if Scalar.abs det ≤ tolerance * size then .ok none
  else
    let x ← divide (l.c * m.b - m.c * l.b) det
    let y ← divide (l.a * m.c - m.a * l.c) det
    .ok (some ⟨Scalar.unsignedZero x, Scalar.unsignedZero y⟩)

/-- Crosses the line at a position with all that follow it. -/
def crossingsAt (tolerance : α) (lines : List (Line α)) (i : ℕ) :
    Except Fault (List (Crossing α)) := do
  let first ← read lines i
  (← back lines (i + 1)).mapM fun second => do
    .ok ⟨first.label, second.label, ← intersection tolerance first second⟩

def crossings (tolerance : α) (lines : List (Line α)) : Except Fault (List (Crossing α)) := do
  let rows ← (List.range lines.length).mapM (crossingsAt tolerance lines)
  .ok rows.flatten

/-- The best value among vertices, the earliest among equals. -/
def best (objective : Objective α) (vertices : List (Vertex α)) : Except Fault α := do
  let first ← read vertices 0
  let rest ← back vertices 1
  .ok (rest.foldl (fun best v => if objective.improves v.value best then v.value else best)
    first.value)

/-- The solve of a problem in the plane that has been validated. -/
def corners (tolerance : α) (p : Problem α) : Except Fault (CornerSolution α) := do
  let lines ← boundaryLines tolerance p
  let crossings ← crossings tolerance lines
  let survey : Survey α := ⟨crossings, p.sift tolerance [] (crossings.filterMap (·.point))⟩
  let begun := p.statement (variableNames 2) ++ p.degenerateRows tolerance ++ survey.events
  let vertices := survey.vertices p.objective
  if vertices.isEmpty then
    .ok ⟨.infeasible, [], none, [], none,
      begun ++ [.infeasible "no intersection point satisfies every constraint"]⟩
  else
    let best ← best p.objective vertices
    let winners := (vertices.filter fun v => Scalar.approxEq tolerance v.value best).map (·.point)
    let solutionType := if winners.length = 1 then Multiplicity.unique else .multiple
    .ok ⟨.optimal, vertices, some best, winners, some solutionType,
      begun ++ vertices.map (fun v => .vertexEvaluation v.point v.value) ++
        [.optimumSelected p.objective.sense best winners solutionType]⟩

end Definitions

section Lines

variable {tolerance : ℚ} {p : Problem ℚ} {l m : Line ℚ} {lines : List (Line ℚ)}

theorem boundaryLine_eq_ok {c : Constraint ℚ} (hc : c.coefficients.length = 2) (i : ℕ) :
    boundaryLine tolerance c i =
      .ok (if c.isDegenerate tolerance then none else some (c.line (rowLabel i))) := by
  have hread : ∀ k < 2, read c.coefficients k = .ok (c.coefficients.getD k 0) := fun k hk => by
    rw [List.getD_eq_getElem _ _ (hc.symm ▸ hk)]
    exact read_eq_ok (List.getElem?_eq_getElem _)
  rw [boundaryLine, hread 0 (by omega), hread 1 (by omega)]
  split <;> rfl

theorem boundaryLines_eq_ok (h2 : ∀ c ∈ p.constraints, c.coefficients.length = 2) :
    boundaryLines tolerance p = .ok (p.boundaryLines tolerance) := by
  have hlines : (p.constraints.zipIdx.mapM fun (c, i) => boundaryLine tolerance c i) =
      .ok (p.constraints.zipIdx.map fun (c, i) =>
        if c.isDegenerate tolerance then none else some (c.line (rowLabel i))) :=
    mapM_eq_ok fun e he => boundaryLine_eq_ok (h2 e.1 (List.fst_mem_of_mem_zipIdx he)) e.2
  rw [boundaryLines, hlines, ok_bind, List.filterMap_map]
  rfl

/-- Lines that are not parallel within the tolerance have a determinant to divide by. -/
theorem intersection_eq_ok (h0 : 0 ≤ tolerance) :
    intersection tolerance l m = .ok (l.intersection tolerance m) := by
  rw [intersection, Line.intersection]
  split
  · rfl
  · next hlt =>
    have hdet : l.a * m.b - m.a * l.b ≠ 0 := by
      intro hzero
      rw [hzero, Scalar.abs_eq, abs_zero, Scalar.larger_eq, Scalar.abs_eq, Scalar.abs_eq] at hlt
      exact hlt (mul_nonneg h0 (le_max_of_le_left (abs_nonneg _)))
    rw [divide_eq_ok hdet, ok_bind, divide_eq_ok hdet, ok_bind]

/-- With a negative tolerance a line is crossed with itself. -/
example : intersection (-1) (⟨"R1", 1, 1, 2⟩ : Line ℚ) ⟨"R2", 1, 1, 2⟩ =
    .error .divisionByZero := by
  decide +kernel

theorem crossingsAt_eq_ok (h0 : 0 ≤ tolerance) {i : ℕ} (hl : lines[i]? = some l) :
    crossingsAt tolerance lines i =
      .ok ((lines.drop (i + 1)).map fun m => l.crossing tolerance m) := by
  have hi : i < lines.length := (List.getElem?_eq_some_iff.mp hl).1
  rw [crossingsAt, read_eq_ok hl, ok_bind, back_eq_ok hi, ok_bind]
  refine mapM_eq_ok fun m _ => ?_
  rw [intersection_eq_ok h0, ok_bind]
  rfl

/-- Every pair is met at the position of its earlier entry. -/
theorem flatten_mapIdx_drop {β γ : Type} (f : β → β → γ) (xs : List β) :
    (xs.mapIdx fun i x => (xs.drop (i + 1)).map (f x)).flatten =
      (pairs xs).map fun e => f e.1 e.2 := by
  induction xs with
  | nil => rfl
  | cons x xs ih =>
    rw [List.mapIdx_cons, List.flatten_cons, pairs, List.map_append, List.map_map, ← ih]
    rfl

theorem crossings_eq_ok (h0 : 0 ≤ tolerance) (lines : List (Line ℚ)) :
    crossings tolerance lines = .ok (LinearProgram.crossings tolerance lines) := by
  have hpairs := flatten_mapIdx_drop (fun l m : Line ℚ => l.crossing tolerance m) lines
  rw [List.mapIdx_eq_zipIdx_map] at hpairs
  rw [crossings, mapM_zipIdx_eq_ok lines fun i l hl => crossingsAt_eq_ok h0 hl, ok_bind]
  exact congrArg Except.ok hpairs

theorem best_eq_ok {objective : Objective ℚ} {vertices : List (Vertex ℚ)} {x : ℚ}
    (h : objective.best vertices = some x) : best objective vertices = .ok x := by
  cases vertices with
  | nil => cases h
  | cons v rest =>
    obtain rfl := Option.some.inj h
    rfl

theorem corners_eq_ok (h0 : 0 ≤ tolerance)
    (h2 : ∀ c ∈ p.constraints, c.coefficients.length = 2) :
    corners tolerance p = .ok (p.optimum tolerance (p.survey tolerance)) := by
  have hsurvey : (⟨LinearProgram.crossings tolerance (p.boundaryLines tolerance),
      p.sift tolerance [] ((LinearProgram.crossings tolerance
        (p.boundaryLines tolerance)).filterMap (·.point))⟩ : Survey ℚ) = p.survey tolerance := rfl
  rw [corners, boundaryLines_eq_ok h2, ok_bind, crossings_eq_ok h0, ok_bind, hsurvey]
  cases hbest : p.objective.best ((p.survey tolerance).vertices p.objective) with
  | none =>
    have hnil := Objective.best_eq_none_iff.mp hbest
    simp only [hnil, List.isEmpty_nil, if_true, Problem.optimum, Objective.best]
  | some x =>
    have hne : ((p.survey tolerance).vertices p.objective).isEmpty = false := by
      rw [List.isEmpty_eq_false_iff]
      intro hnil
      rw [Objective.best_eq_none_iff.mpr hnil] at hbest
      cases hbest
    simp only [hne, Bool.false_eq_true, if_false, best_eq_ok hbest, ok_bind, Problem.optimum, hbest]

end Lines

/-- A problem that is accepted is solved under all settings with a tolerance that is not negative,
in the plane by its corners too. Neither solver ever looks up a list out of range or divides by
zero. -/
theorem solves_without_fault {p : Problem ℚ} (hv : p.validate = .ok ()) :
    (∀ s : SimplexSettings ℚ, 0 ≤ s.tolerance →
      ∃ solution, s.solve p = .ok solution ∧ simplex s p = .ok solution) ∧
    (p.variableCount = 2 → ∀ tolerance : ℚ, 0 ≤ tolerance →
      ∃ solution, p.solveByCorners tolerance = .ok solution ∧
        corners tolerance p = .ok solution) := by
  have hl := Problem.length_of_validate hv
  refine ⟨fun s h0 => ?_, fun h2 tolerance h0 => ?_⟩
  · exact ⟨_, SimplexSettings.solve_of_validate hv, simplex_eq_ok h0 hl⟩
  · exact ⟨_, Problem.solveByCorners_of_validate tolerance hv h2,
      corners_eq_ok h0 fun c hc => (hl c hc).trans h2⟩

theorem solves_without_fault_segmentProblem : Problem.segmentProblem.validate = .ok () ∧
    (∃ solution, (⟨none, 1e-9, .twoPhase, 1e6⟩ : SimplexSettings ℚ).solve Problem.segmentProblem =
        .ok solution ∧
      simplex (⟨none, 1e-9, .twoPhase, 1e6⟩ : SimplexSettings ℚ) Problem.segmentProblem =
        .ok solution) ∧
    Problem.segmentProblem.variableCount = 2 ∧
    ∃ solution, Problem.segmentProblem.solveByCorners (1e-9 : ℚ) = .ok solution ∧
      corners (1e-9 : ℚ) Problem.segmentProblem = .ok solution := by
  have hv : Problem.segmentProblem.validate = .ok () := by decide +kernel
  obtain ⟨hsimplex, hcorners⟩ := solves_without_fault hv
  exact ⟨hv, hsimplex _ (by norm_num), rfl, hcorners rfl _ (by norm_num)⟩

end Checked

end LinearProgram
