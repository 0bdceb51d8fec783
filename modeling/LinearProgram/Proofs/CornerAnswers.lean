import LinearProgram.Proofs.CornerBounds
import LinearProgram.Proofs.CornerNumbers
import LinearProgram.Proofs.Json.QuickNumerals

/-! # Answers by corners in doubles

The points of an answer are as good as its best value, and it calls the optimum unique if there is
one of them. Unless a number leaves the doubles, the answer is also finite, has a best point and can
be read from its text. Otherwise it need not be: the tolerance of a comparison with an infinite
operand is infinite, so that infinite points pass the checks, and what is not a number ties with
nothing.
-/

namespace LinearProgram

open Double Json

theorem Scalar.approxEq_self {x : Float} (hx : x.isFinite = true) :
    approxEq defaultTolerance x x = true := by
  have hdifference := rounds_sub hx hx
  rw [sub_self] at hdifference
  obtain ⟨hfinite, hvalue⟩ := hdifference.eq_value isFinite_zero value_zero
  obtain ⟨habs, habsValue⟩ := isFinite_abs hfinite
  rw [hvalue, abs_zero] at habsValue
  obtain ⟨hnan, hslack⟩ := nonneg_iff.mp (nonneg_slack x x)
  have hzero : position (x - x).abs = mark 0 := by rw [position_of_isFinite habs, habsValue]
  exact decide_eq_true (le_iff.mpr ⟨isNaN_of_isFinite habs, hnan, hzero.trans_le hslack⟩)

namespace CornerSolution

/-- All numbers of the solution and of its trace are finite, and none is among the largest. -/
def IsBounded (s : CornerSolution Float) : Prop :=
  ∀ x ∈ CornerResponse.codec.floats (.ofSolution s), Within 1020 x

/-- The solution is finite, its points are as good as the best value, there is one of them if it is
unique, and it can be exchanged as a text. -/
structure IsFinite (p : Problem Float) (s : CornerSolution Float) : Prop where
  coords : ∀ v ∈ s.vertices, v.point.x.isFinite = true ∧ v.point.y.isFinite = true
  value : ∃ best, s.optimalValue = some best ∧ best.isFinite = true ∧ ∀ q ∈ s.optimalPoints,
    Scalar.approxEq Scalar.defaultTolerance (p.objective.evaluate q.coords) best = true
  points : s.optimalPoints ≠ []
  unique_iff : s.solutionType = some .unique ↔ s.optimalPoints.length = 1
  readable : ∃ r, Shape.cornerResponse.read? Numeral.quick
    (Shape.cornerResponse.text (.ofSolution s)) = some r

variable {s : CornerSolution Float}

/-- The numbers of a vertex are among those of the solution. -/
theorem IsBounded.vertex (h : s.IsBounded) : ∀ v ∈ s.vertices,
    v.point.x.isFinite = true ∧ v.point.y.isFinite = true ∧ v.value.isFinite = true := by
  intro v hv
  rw [IsBounded, CornerResponse.floats_eq] at h
  simp only [List.forall_mem_append] at h
  obtain ⟨hpoints, hvalues, -⟩ := h
  have hpoint : ∀ x ∈ v.point.coords, Within 1020 x := fun x hx =>
    hpoints x (List.mem_flatMap.mpr ⟨v.point, List.mem_map_of_mem hv, by simpa using hx⟩)
  have hvalue : Within 1020 v.value :=
    hvalues _ (List.mem_flatMap.mpr ⟨v.value, List.mem_map_of_mem hv, by simp⟩)
  exact ⟨(hpoint _ (by simp [Point.coords])).1, (hpoint _ (by simp [Point.coords])).1, hvalue.1⟩

end CornerSolution

namespace Problem

section Optimal

variable {α : Type} [Scalar α] {tolerance : α} {p : Problem α}

theorem of_solveByCorners {s : CornerSolution α} (h : p.solveByCorners tolerance = .ok s) :
    p.validate = .ok () ∧ p.variableCount = 2 ∧ s = p.optimum tolerance (p.survey tolerance) := by
  simp only [solveByCorners, validatePlane, bind, Except.bind] at h
  split at h
  · cases h
  · next hplane =>
    split at hplane
    · cases hplane
    · next hv =>
      split at hplane
      · cases hplane
      · next h2 => exact ⟨hv, not_not.mp h2, (Except.ok.inj h).symm⟩

/-- An optimum is the value of a vertex, and is attained by all that are close to it. -/
theorem exists_optimum {s : Survey α} (h : (p.optimum tolerance s).status = .optimal) :
    ∃ best winners trace, (∃ v ∈ s.vertices p.objective, v.value = best) ∧
      winners = ((s.vertices p.objective).filter fun v =>
        Scalar.approxEq tolerance v.value best).map (·.point) ∧
      p.optimum tolerance s = ⟨.optimal, s.vertices p.objective, some best, winners,
        some (if winners.length = 1 then .unique else .multiple), trace⟩ := by
  rw [optimum] at h ⊢
  cases hbest : p.objective.best (s.vertices p.objective) with
  | none =>
    rw [hbest] at h
    cases h
  | some best => exact ⟨best, _, _, Objective.exists_of_best hbest, rfl, rfl⟩

end Optimal

section Answers

variable {p : Problem Float} {s : CornerSolution Float}
  (hs : p.solveByCorners Scalar.defaultTolerance = .ok s)

include hs

/-- An answer is written and read as a solution if its numbers stay small enough. -/
theorem exists_read_of_isBounded (h : s.IsBounded) :
    ∃ r, Shape.cornerResponse.read? Numeral.quick
      (Shape.cornerResponse.text (.ofSolution s)) = some r := by
  obtain ⟨-, -, rfl⟩ := of_solveByCorners hs
  have hfits : CornerResponse.codec.fits (.ofSolution (p.optimum Scalar.defaultTolerance
      (p.survey Scalar.defaultTolerance))) = true :=
    (all_optimum (P := fun _ => True) trivial ⟨fun _ _ => trivial, fun _ _ => ⟨fun _ _ => trivial,
      trivial⟩⟩ fun _ _ => ⟨fun _ _ => trivial, fun _ _ => trivial, trivial⟩).2
  have hread := CornerResponse.codec.exists_read (n := 7) (by decide)
    (fun x hx => ⟨(h x hx).1, readsFinite_quick (h x hx) le_rfl⟩) hfits
  obtain ⟨r, hr, -⟩ := hread
  exact ⟨r, hr⟩

/-- The vertices of a problem whose numbers are moderate stay far below the greatest double. -/
theorem IsModerate.isBounded (hp : p.IsModerate) : s.IsBounded := by
  obtain ⟨hv, h2, rfl⟩ := of_solveByCorners hs
  have hzero : Within 868 0 := ⟨isFinite_zero, by rw [value_zero, abs_zero]; positivity⟩
  obtain ⟨hobjective, hrows⟩ := hp.within hv
  have hall : p.All (Within 868) := ⟨fun x hx => (hobjective x hx).mono (by norm_num),
    fun c hc => ⟨fun x hx => ((hrows c hc).2 x hx).mono (by norm_num),
      (hrows c hc).1.mono (by norm_num)⟩⟩
  have hat : ∀ q ∈ (crossings Scalar.defaultTolerance
      (p.boundaryLines Scalar.defaultTolerance)).filterMap (·.point), p.AllAt (Within 868) q := by
    intro q hq
    have hpoint := hp.within_crossing hv h2 hq
    refine ⟨?_, fun c hc => hp.within_lhs hv h2 hpoint hc, hp.within_evaluate hv h2 hpoint⟩
    simpa [Point.All, Point.coords] using
      ⟨hpoint.1.mono (by norm_num), hpoint.2.mono (by norm_num)⟩
  intro x hx
  exact ((all_optimum hzero hall hat).1 x hx).mono (by norm_num)

theorem answerByCorners_eq {request : String} (h : Problem.ofRequest request = .ok p) :
    answerByCorners Scalar.defaultTolerance request =
      .ok (Shape.cornerResponse.text (.ofSolution s)) := by
  simp only [answerByCorners, h, hs, bind, Except.bind]
  rfl

/-- Whatever is not a number fails a check. -/
theorem isNaN_vertices : ∀ v ∈ s.vertices, v.point.x.isNaN = false ∧ v.point.y.isNaN = false := by
  obtain ⟨-, -, rfl⟩ := of_solveByCorners hs
  rw [vertices_optimum, Survey.vertices, List.forall_mem_map]
  intro q hq
  obtain ⟨hx, hy, -⟩ := (Problem.all_satisfied_iff _ p q).mp (mem_of_mem_corners hq).2
  exact ⟨Relation.isNaN_of_holds hx, Relation.isNaN_of_holds hy⟩

variable (hoptimal : s.status = .optimal)

include hoptimal

/-- The best value is near that of each point of the answer, and if no value overflows, then it is
attained. -/
theorem exists_optimalValue : ∃ best, s.optimalValue = some best ∧
    (∀ q ∈ s.optimalPoints,
      Scalar.approxEq Scalar.defaultTolerance (p.objective.evaluate q.coords) best = true) ∧
    ((∀ v ∈ s.vertices, v.value.isFinite = true) →
      best.isFinite = true ∧ s.optimalPoints ≠ []) := by
  obtain ⟨-, -, rfl⟩ := of_solveByCorners hs
  obtain ⟨best, winners, trace, ⟨w, hw, rfl⟩, rfl, heq⟩ := exists_optimum hoptimal
  rw [heq]
  refine ⟨w.value, rfl, ?_, fun hfinite => ⟨hfinite w hw, ?_⟩⟩
  · rw [List.forall_mem_map]
    intro v hv
    obtain ⟨hmem, hclose⟩ := List.mem_filter.mp hv
    obtain ⟨q, -, rfl⟩ := List.mem_map.mp hmem
    exact hclose
  · exact List.ne_nil_of_mem (List.mem_map_of_mem
      (List.mem_filter.mpr ⟨hw, Scalar.approxEq_self (hfinite w hw)⟩))

theorem solutionType_eq_unique_iff :
    s.solutionType = some .unique ↔ s.optimalPoints.length = 1 := by
  obtain ⟨-, -, rfl⟩ := of_solveByCorners hs
  obtain ⟨best, winners, trace, -, -, heq⟩ := exists_optimum hoptimal
  rw [heq]
  dsimp only
  split <;> simp [*]

theorem isFinite_of_isBounded (h : s.IsBounded) : s.IsFinite p where
  coords v hv := ⟨(h.vertex v hv).1, (h.vertex v hv).2.1⟩
  value := by
    obtain ⟨best, hbest, hclose, hfinite⟩ := exists_optimalValue hs hoptimal
    exact ⟨best, hbest, (hfinite fun v hv => (h.vertex v hv).2.2).1, hclose⟩
  points := by
    obtain ⟨best, -, -, hfinite⟩ := exists_optimalValue hs hoptimal
    exact (hfinite fun v hv => (h.vertex v hv).2.2).2
  unique_iff := solutionType_eq_unique_iff hs hoptimal
  readable := exists_read_of_isBounded hs h

/-- An optimal answer to a problem in the plane has a best value, no points but those that attain
it, and no coordinate that is not a number. If its numbers stay small enough, as they do for a
problem of moderate numbers, it is finite altogether and is read from its text. -/
theorem solveByCorners_isFinite :
    (∃ best, s.optimalValue = some best ∧
      (∀ q ∈ s.optimalPoints,
        Scalar.approxEq Scalar.defaultTolerance (p.objective.evaluate q.coords) best = true) ∧
      ((∀ v ∈ s.vertices, v.value.isFinite = true) →
        best.isFinite = true ∧ s.optimalPoints ≠ [])) ∧
    (s.solutionType = some .unique ↔ s.optimalPoints.length = 1) ∧
    (∀ v ∈ s.vertices, v.point.x.isNaN = false ∧ v.point.y.isNaN = false) ∧
    (∀ request, Problem.ofRequest request = .ok p →
      answerByCorners Scalar.defaultTolerance request =
        .ok (Shape.cornerResponse.text (.ofSolution s))) ∧
    (s.IsBounded → s.IsFinite p) ∧ (p.IsModerate → s.IsFinite p) :=
  ⟨exists_optimalValue hs hoptimal, solutionType_eq_unique_iff hs hoptimal, isNaN_vertices hs,
    fun _ => answerByCorners_eq hs, isFinite_of_isBounded hs hoptimal,
    fun hp => isFinite_of_isBounded hs hoptimal (hp.isBounded hs)⟩

end Answers

/-- Two corners attain the best value, whose coordinates are rounded. -/
def thirdsProblem : Problem Float :=
  ⟨⟨[1, 1], .maximize⟩, [⟨[3, 3], .le, 1⟩]⟩

theorem isModerate_thirdsProblem : thirdsProblem.IsModerate where
  objective := by decide +kernel
  bound := by decide +kernel
  coefficient := by decide +kernel

theorem solveByCorners_isFinite_thirdsProblem : thirdsProblem.IsModerate ∧
    ∃ s, thirdsProblem.solveByCorners Scalar.defaultTolerance = .ok s ∧ s.status = .optimal ∧
      s.optimalPoints.length = 2 ∧ s.IsFinite thirdsProblem := by
  have hs := solveByCorners_of_validate Scalar.defaultTolerance (p := thirdsProblem)
    (by decide +kernel) rfl
  obtain ⟨-, -, -, -, -, hfinite⟩ := solveByCorners_isFinite hs (by decide +kernel)
  exact ⟨isModerate_thirdsProblem, _, hs, by decide +kernel, by decide +kernel,
    hfinite isModerate_thirdsProblem⟩

/-- The value is zero in the whole region, but the products at `(1e10, 1e10)` are infinite. -/
def steepProblem : Problem Float :=
  ⟨⟨[1e300, -1e300], .maximize⟩, [⟨[1, -1], .eq, 0⟩, ⟨[1, 0], .le, 1e10⟩]⟩

/-- The rows meet near `(1e160, 1)`, but the products in its first coordinate are infinite. -/
def wideProblem : Problem Float :=
  ⟨⟨[1, 0], .maximize⟩, [⟨[1, 1], .eq, 1e160⟩, ⟨[1, 1e160], .eq, 2e160⟩]⟩

/-- Products that overflow leave an optimum that is not a number, without any point, or a vertex
with an infinite coordinate, and what is written of it is not read. -/
theorem solveByCorners_not_isFinite :
    (∃ s, steepProblem.solveByCorners Scalar.defaultTolerance = .ok s ∧ s.status = .optimal ∧
      s.optimalValue.map Float.isNaN = some true ∧ s.optimalPoints = [] ∧
      ¬ s.IsFinite steepProblem) ∧
    ∃ s, wideProblem.solveByCorners Scalar.defaultTolerance = .ok s ∧ s.status = .optimal ∧
      s.vertices.map (fun v => v.point.x.isFinite) = [false, true] ∧
      Json.decode? CornerResponse.ofJson (CornerResponse.toJson (.ofSolution s)) = none ∧
      ¬ s.IsFinite wideProblem := by
  have hsteep := solveByCorners_of_validate Scalar.defaultTolerance (p := steepProblem)
    (by decide +kernel) rfl
  have hwide := solveByCorners_of_validate Scalar.defaultTolerance (p := wideProblem)
    (by decide +kernel) rfl
  have hpoints : (steepProblem.optimum Scalar.defaultTolerance
      (steepProblem.survey Scalar.defaultTolerance)).optimalPoints = [] := by decide +kernel
  have hcoords : (wideProblem.optimum Scalar.defaultTolerance
      (wideProblem.survey Scalar.defaultTolerance)).vertices.map
        (fun v => v.point.x.isFinite) = [false, true] := by decide +kernel
  refine ⟨⟨_, hsteep, by decide +kernel, by decide +kernel, hpoints, fun h => h.points hpoints⟩,
    _, hwide, by decide +kernel, hcoords, by decide +kernel, fun h => ?_⟩
  have hmem : false ∈ [false, true] := List.mem_cons_self
  rw [← hcoords, List.mem_map] at hmem
  obtain ⟨v, hv, hx⟩ := hmem
  rw [(h.coords v hv).1] at hx
  cases hx

end Problem

end LinearProgram
