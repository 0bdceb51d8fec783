import LinearProgram.Proofs.CornerAnswers
import LinearProgram.Proofs.FinalTableau

/-! # Negative zeros in answers

Coordinates, assignments and the grids of snapshots have no negative zero. The value of an objective
is added up from a negative zero on, so it is one if all its products are. At the origin that is the
case if every coefficient has the negative sign.
-/

namespace LinearProgram

open Double

namespace Objective

variable {o : Objective Float} {point : List Float}

theorem evaluate_eq_negativeZero_iff :
    o.evaluate point = -0 ↔ ∀ x ∈ List.zipWith (· * ·) o.coefficients point, x = -0 :=
  sum_eq_negativeZero_iff _

/-- At the origin the value is a negative zero if every coefficient has the negative sign. -/
theorem evaluate_origin_iff (hfinite : ∀ c ∈ o.coefficients, c.isFinite = true)
    (hlength : point.length = o.coefficients.length) (hzero : ∀ v ∈ point, v = 0) :
    o.evaluate point = -0 ↔ ∀ c ∈ o.coefficients, c < 0 ∨ c = -0 := by
  have hproducts : List.zipWith (· * ·) o.coefficients point = o.coefficients.map (· * 0) := by
    refine List.ext_getElem (by simp [hlength]) fun i _ _ => ?_
    rw [List.getElem_zipWith, List.getElem_map, hzero _ (List.getElem_mem _)]
  rw [evaluate_eq_negativeZero_iff, hproducts, List.forall_mem_map]
  exact forall₂_congr fun c hc => mul_zero_eq_negativeZero_iff (hfinite c hc)

end Objective

/-- The signs of the zeros in an answer by corners. Only values of the objective may be negative
zeros. -/
structure CornerSolution.SignsOfZero (p : Problem Float) (s : CornerSolution Float) : Prop where
  coords : ∀ v ∈ s.vertices, v.point.x ≠ -0 ∧ v.point.y ≠ -0
  points : ∀ q ∈ s.optimalPoints, q.x ≠ -0 ∧ q.y ≠ -0
  value_iff : ∀ v ∈ s.vertices, v.value = -0 ↔
    ∀ x ∈ List.zipWith (· * ·) p.objective.coefficients v.point.coords, x = -0
  origin : ∀ v ∈ s.vertices, v.point = ⟨0, 0⟩ →
    (v.value = -0 ↔ ∀ c ∈ p.objective.coefficients, c < 0 ∨ c = -0)
  optimal : ∀ best, s.optimalValue = some best → ∃ v ∈ s.vertices, v.value = best

/-- The signs of the zeros in an answer of the simplex method. Only the optimal value may be a
negative zero. -/
structure SimplexSolution.SignsOfZero (p : Problem Float) (s : SimplexSolution Float) :
    Prop where
  assignment : ∀ v ∈ s.assignment, v ≠ -0
  grid : ∀ snapshot ∈ s.tableaus, ∀ row ∈ snapshot.grid, ∀ x ∈ row, x ≠ -0
  value_iff : ∀ value, s.optimalValue = some value → (value = -0 ↔
    ∀ x ∈ List.zipWith (· * ·) p.objective.coefficients s.assignment, x = -0)
  origin : (∀ v ∈ s.assignment, v = 0) → ∀ value, s.optimalValue = some value →
    (value = -0 ↔ ∀ c ∈ p.objective.coefficients, c < 0 ∨ c = -0)

section Corners

variable {tolerance : Float} {lines : List (Line Float)} {q : Point Float} {p : Problem Float}
  {s : CornerSolution Float}

theorem ne_negativeZero_of_mem_crossings
    (hq : q ∈ (crossings tolerance lines).filterMap (·.point)) : q.x ≠ -0 ∧ q.y ≠ -0 := by
  obtain ⟨c, hc, hpoint⟩ := List.mem_filterMap.mp hq
  obtain ⟨⟨l, m⟩, -, rfl⟩ := List.mem_map.mp hc
  simp only [Line.crossing, Line.intersection] at hpoint
  split at hpoint
  · cases hpoint
  · cases hpoint
    exact ⟨unsignedZero_ne_negativeZero _, unsignedZero_ne_negativeZero _⟩

theorem isFinite_coefficients (hv : p.validate = .ok ()) :
    ∀ c ∈ p.objective.coefficients, c.isFinite = true := fun c hc =>
  (Scalar.isFinite_iff c).mp ((p.of_validate hv).1 c hc)

theorem CornerSolution.signsOfZero (h : p.solveByCorners tolerance = .ok s) :
    s.SignsOfZero p := by
  obtain ⟨hv, h2, rfl⟩ := Problem.of_solveByCorners h
  have hcorner : ∀ q ∈ (p.survey tolerance).corners, q.x ≠ -0 ∧ q.y ≠ -0 := fun q hq =>
    ne_negativeZero_of_mem_crossings (Problem.mem_of_mem_corners hq).1
  obtain ⟨hpoints, hbest⟩ := p.mem_of_optimum tolerance (p.survey tolerance)
  refine ⟨?_, fun q hq => hcorner q (hpoints q hq), ?_, ?_, hbest⟩ <;>
    rw [Problem.vertices_optimum, Survey.vertices, List.forall_mem_map]
  · exact hcorner
  · exact fun q _ => Objective.evaluate_eq_negativeZero_iff
  · rintro q - rfl
    exact Objective.evaluate_origin_iff (isFinite_coefficients hv) h2.symm (by simp [Point.coords])

end Corners

section Simplex

theorem Tableau.ne_negativeZero_of_mem_assignment (t : Tableau Float) :
    ∀ v ∈ t.assignment, v ≠ -0 := by
  rw [assignment, List.forall_mem_map]
  intro col _
  split
  · exact unsignedZero_ne_negativeZero _
  · exact zero_ne_negativeZero

theorem Snapshot.Shows.ne_negativeZero {snapshot : Snapshot Float} {t : Tableau Float}
    (h : snapshot.Shows t) : ∀ row ∈ snapshot.grid, ∀ x ∈ row, x ≠ -0 := by
  rw [h.grid_eq, List.forall_mem_map]
  intro row _
  rw [List.forall_mem_map]
  exact fun x _ => unsignedZero_ne_negativeZero x

theorem SimplexSolution.signsOfZero {settings : SimplexSettings Float} {p : Problem Float}
    {s : SimplexSolution Float} (h : settings.solve p = .ok s) : s.SignsOfZero p := by
  obtain ⟨hv, rfl⟩ := SimplexSettings.validate_of_solve h
  have hgrid : ∀ snapshot ∈ (settings.run p).solution.tableaus, ∀ row ∈ snapshot.grid, ∀ x ∈ row,
      x ≠ -0 :=
    SimplexSettings.forall_tableaus
      (fun iteration description _ => (Tableau.shows_snapshot ..).ne_negativeZero)
      (fun iteration _ _ => Snapshot.Shows.ne_negativeZero ⟨rfl, rfl, rfl⟩)
      (fun iteration _ _ => Snapshot.Shows.ne_negativeZero ⟨rfl, rfl, rfl⟩)
  have hassignment := SimplexSettings.assignment_run settings p
  have hvalue := SimplexSettings.optimalValue_run settings p
  obtain ⟨status, hout⟩ | hout := settings.outcome_cases p
  · rw [hout] at hassignment hvalue
    refine ⟨?_, hgrid, ?_, ?_⟩
    · rw [hassignment]
      exact nofun
    · rw [hvalue]
      exact nofun
    · rw [hvalue]
      exact fun _ => nofun
  · rw [hout] at hassignment hvalue
    have hcolumns := (Leg.columns_final _).trans (settings.isLeg_lastLeg p).columns_loaded
    refine ⟨?_, hgrid, ?_, fun hzero => ?_⟩
    · rw [hassignment]
      exact Tableau.ne_negativeZero_of_mem_assignment _
    · rw [hvalue, hassignment]
      rintro _ ⟨⟩
      exact Objective.evaluate_eq_negativeZero_iff
    · rw [hassignment] at hzero
      rw [hvalue]
      rintro _ ⟨⟩
      refine Objective.evaluate_origin_iff (isFinite_coefficients hv) ?_ hzero
      rw [Tableau.assignment, List.length_map, List.length_range,
        Problem.count_decision hcolumns, Problem.variableCount]

end Simplex

namespace Problem

/-- The answers to a valid problem have no negative zeros but values of the objective. Such a value
is one if all its products are, so at the origin if every coefficient has the negative sign. -/
theorem solve_signsOfZero {p : Problem Float} (hv : p.validate = .ok ()) :
    (p.variableCount = 2 → ∀ tolerance, ∃ s, p.solveByCorners tolerance = .ok s ∧
      s.SignsOfZero p) ∧
    ∀ settings : SimplexSettings Float, ∃ s, settings.solve p = .ok s ∧ s.SignsOfZero p := by
  refine ⟨fun h2 tolerance => ?_, fun settings => ?_⟩
  · have hs := solveByCorners_of_validate tolerance hv h2
    exact ⟨_, hs, CornerSolution.signsOfZero hs⟩
  · have hs := settings.solve_of_validate hv
    exact ⟨_, hs, SimplexSolution.signsOfZero hs⟩

/-- The best is to do nothing. -/
def lossProblem : Problem Float :=
  ⟨⟨[-1, -1], .maximize⟩, [⟨[1, 1], .le, 4⟩]⟩

/-- The origin is the last of the vertices. Its value is a negative zero, since both coefficients
are negative. -/
theorem solve_signsOfZero_lossProblem : lossProblem.validate = .ok () ∧
    (∃ s, lossProblem.solveByCorners Scalar.defaultTolerance = .ok s ∧
      s.vertices.map (fun v => decide (v.point = ⟨0, 0⟩)) = [false, false, true] ∧
      (∀ v ∈ s.vertices, v.point = ⟨0, 0⟩ → v.value = -0) ∧
      ∀ q ∈ s.optimalPoints, q.x ≠ -0 ∧ q.y ≠ -0) ∧
    ∀ d, ∃ s, { (.standard : SimplexSettings Float) with discipline := d }.solve lossProblem =
      .ok s ∧ s.assignment = [0, 0] ∧ s.optimalValue = some (-0) := by
  have hv : lossProblem.validate = .ok () := by decide +kernel
  have hnegative : ∀ c ∈ lossProblem.objective.coefficients, c < 0 ∨ c = -0 := by decide +kernel
  obtain ⟨hcorners, hsimplex⟩ := solve_signsOfZero hv
  obtain ⟨s, hs, hsigns⟩ := hcorners rfl Scalar.defaultTolerance
  refine ⟨hv, ⟨s, hs, ?_, fun v hmem horigin => (hsigns.origin v hmem horigin).mpr hnegative,
    hsigns.points⟩, fun d => ?_⟩
  · obtain ⟨-, -, hsolution⟩ := of_solveByCorners hs
    rw [hsolution]
    decide +kernel
  · obtain ⟨s, hs, hsigns⟩ := hsimplex { SimplexSettings.standard with discipline := d }
    obtain ⟨-, hsolution⟩ := SimplexSettings.validate_of_solve hs
    have hassignment : s.assignment = [0, 0] := by
      rw [hsolution]
      cases d <;> decide +kernel
    have hvalue : s.optimalValue.isSome = true := by
      rw [hsolution]
      cases d <;> decide +kernel
    obtain ⟨value, hvalue⟩ := Option.isSome_iff_exists.mp hvalue
    refine ⟨s, hs, hassignment, hvalue.trans (congrArg some ?_)⟩
    exact (hsigns.origin (by simp [hassignment]) value hvalue).mpr hnegative

/-- An optimal value is a negative zero in the answers of all methods. -/
theorem exists_negativeZero_optimalValue : lossProblem.validate = .ok () ∧
    (∃ s, lossProblem.solveByCorners Scalar.defaultTolerance = .ok s ∧
      s.vertices.map (·.value) = [-4, -4, -0] ∧ s.optimalValue = some (-0)) ∧
    ∀ d, ∃ s, { (.standard : SimplexSettings Float) with discipline := d }.solve lossProblem =
      .ok s ∧ s.optimalValue = some (-0) := by
  have hv : lossProblem.validate = .ok () := by decide +kernel
  refine ⟨hv, ⟨_, solveByCorners_of_validate _ hv rfl, by decide +kernel, by decide +kernel⟩,
    fun d => ⟨_, SimplexSettings.solve_of_validate hv, ?_⟩⟩
  cases d <;> decide +kernel

end Problem

end LinearProgram
