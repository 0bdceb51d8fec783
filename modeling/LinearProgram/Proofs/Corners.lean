import LinearProgram.Plane.Corners
import LinearProgram.Proofs.Boundary

/-! # Corners and extreme points

Without a tolerance the corners that are found are the extreme points of the region, each once, and
there is one unless the region is empty. If the objective has a bound on the region, the best corner
is an optimum among all points.
-/

namespace LinearProgram

theorem Scalar.approxEq_zero_iff {x y : ℚ} : Scalar.approxEq 0 x y = true ↔ x = y := by
  rw [approxEq, abs_eq, zero_mul, decide_eq_true_eq, abs_nonpos_iff, sub_eq_zero]

theorem Point.approxEq_zero_iff {q r : Point ℚ} : q.approxEq 0 r = true ↔ q = r := by
  obtain ⟨x, y⟩ := q
  obtain ⟨u, v⟩ := r
  rw [approxEq, Bool.and_eq_true, Scalar.approxEq_zero_iff, Scalar.approxEq_zero_iff, mk.injEq]

namespace Objective

variable {o : Objective ℚ} {best x : ℚ} {l : List (Vertex ℚ)}

theorem not_improves_iff (o : Objective ℚ) (x y : ℚ) :
    ¬ o.improves x y = true ↔ o.sense.sign * x ≤ o.sense.sign * y := by
  rw [improves_iff, not_lt]

/-- The scan for the best value ends with one that none beats. -/
theorem foldl_improves (x : ℚ) (l : List (Vertex ℚ)) :
    let best := l.foldl (fun best v => if o.improves v.value best then v.value else best) x
    ¬ o.improves x best = true ∧ ∀ v ∈ l, ¬ o.improves v.value best = true := by
  induction l generalizing x with
  | nil => exact ⟨(o.not_improves_iff x x).mpr le_rfl, by simp⟩
  | cons v l ih =>
    rw [List.foldl_cons]
    obtain ⟨hstart, hall⟩ := ih (if o.improves v.value x then v.value else x)
    simp only [not_improves_iff] at hstart ⊢
    by_cases himproves : o.improves v.value x = true
    · rw [if_pos himproves] at hstart hall ⊢
      rw [improves_iff] at himproves
      refine ⟨himproves.le.trans hstart, List.forall_mem_cons.mpr ⟨hstart, ?_⟩⟩
      simpa only [not_improves_iff] using hall
    · rw [if_neg himproves] at hstart hall ⊢
      rw [not_improves_iff] at himproves
      refine ⟨hstart, List.forall_mem_cons.mpr ⟨himproves.trans hstart, ?_⟩⟩
      simpa only [not_improves_iff] using hall

section Best

variable {α : Type} [Scalar α] {o : Objective α} {l : List (Vertex α)}

/-- The scan for the best value ends with the first value or with that of a vertex. -/
theorem eq_or_exists_foldl (x : α) :
    (l.foldl (fun best w => if o.improves w.value best then w.value else best) x = x) ∨
      ∃ w ∈ l, w.value =
        l.foldl (fun best w => if o.improves w.value best then w.value else best) x := by
  induction l generalizing x with
  | nil => exact .inl rfl
  | cons w l ih =>
    rw [List.foldl_cons]
    obtain heq | ⟨u, hu, heq⟩ := ih (if o.improves w.value x then w.value else x)
    · rw [heq]
      split
      · exact .inr ⟨w, List.mem_cons_self, rfl⟩
      · exact .inl rfl
    · exact .inr ⟨u, List.mem_cons_of_mem w hu, heq⟩

theorem best_eq_none_iff : o.best l = none ↔ l = [] := by
  cases l <;> simp [Objective.best]

/-- A best value is the value of a vertex. -/
theorem exists_of_best {best : α} (h : o.best l = some best) : ∃ v ∈ l, v.value = best := by
  cases l with
  | nil => cases h
  | cons v l =>
    obtain rfl := Option.some.inj h
    obtain heq | ⟨w, hw, heq⟩ := @eq_or_exists_foldl _ _ o l v.value
    · exact ⟨v, List.mem_cons_self, heq.symm⟩
    · exact ⟨w, List.mem_cons_of_mem v hw, heq⟩

end Best

/-- The best value of vertices is one of theirs, and no vertex beats it. -/
theorem best_eq_some (h : o.best l = some best) :
    (∃ v ∈ l, v.value = best) ∧ ∀ v ∈ l, ¬ o.improves v.value best = true := by
  refine ⟨exists_of_best h, ?_⟩
  cases l with
  | nil => cases h
  | cons v l =>
    obtain rfl := Option.some.inj h
    obtain ⟨hstart, hall⟩ := foldl_improves (o := o) v.value l
    exact List.forall_mem_cons.mpr ⟨hstart, hall⟩

end Objective

namespace Problem

variable {p : Problem ℚ} {q : Point ℚ} {seen points : List (Point ℚ)}

/-- A point passes its checks if no coordinate is negative and every constraint holds. -/
theorem all_satisfied_iff {α : Type} [Scalar α] (tolerance : α) (p : Problem α) (q : Point α) :
    (p.checksAt tolerance q).all (·.satisfied) = true ↔
      Relation.ge.holds tolerance q.x 0 = true ∧ Relation.ge.holds tolerance q.y 0 = true ∧
        ∀ c ∈ p.constraints, c.isSatisfied tolerance q.coords = true := by
  rw [checksAt, List.all_eq_true, List.forall_mem_cons, List.forall_mem_cons]
  refine and_congr_right' (and_congr_right' ?_)
  simp only [List.forall_mem_map, Prod.forall]
  constructor
  · intro h c hc
    obtain ⟨i, hi⟩ := List.mem_iff_getElem?.mp hc
    exact h c i (List.mem_zipIdx_iff_getElem?.mpr hi)
  · intro h c i hc
    exact h c (List.mem_of_getElem? (List.mem_zipIdx_iff_getElem?.mp hc))

theorem all_satisfied_checksAt (h2 : p.variableCount = 2) (q : Point ℚ) :
    (p.checksAt 0 q).all (·.satisfied) = true ↔ p.Feasible q.coords := by
  rw [all_satisfied_iff]
  simp only [Constraint.isSatisfied, Relation.holds_zero, Relation.Exactly]
  constructor
  · rintro ⟨hx, hy, hholds⟩
    exact ⟨h2.symm, by simp [Point.coords, hx, hy], hholds⟩
  · intro h
    exact ⟨h.nonneg q.x (by simp [Point.coords]), h.nonneg q.y (by simp [Point.coords]), h.holds⟩

section Sift

variable (h2 : p.variableCount = 2)

include h2

/-- Without a tolerance a point is a corner if it is feasible and was not seen before. -/
theorem corners_sift_cons (seen : List (Point ℚ)) (q : Point ℚ) (points : List (Point ℚ)) :
    (p.sift 0 seen (q :: points)).filterMap Candidate.corner? =
      if p.Feasible q.coords ∧ q ∉ seen then
        q :: (p.sift 0 (seen ++ [q]) points).filterMap Candidate.corner?
      else (p.sift 0 seen points).filterMap Candidate.corner? := by
  simp only [sift, all_satisfied_checksAt h2]
  by_cases hq : p.Feasible q.coords
  · simp only [hq, if_true, true_and]
    cases hfind : seen.find? fun corner => corner.approxEq 0 q with
    | none =>
      have hnew : q ∉ seen := by
        intro hmem
        have hne : ¬ q.approxEq 0 q = true := List.find?_eq_none.mp hfind q hmem
        exact hne (Point.approxEq_zero_iff.mpr rfl)
      simp [hnew, Candidate.corner?]
    | some corner =>
      have heq := List.find?_some hfind
      obtain rfl : corner = q := Point.approxEq_zero_iff.mp heq
      have hseen : corner ∈ seen := List.mem_of_find?_eq_some hfind
      simp [hseen, List.filterMap_cons, Candidate.corner?]
  · simp [hq, List.filterMap_cons, Candidate.corner?]

theorem nodup_corners_sift (hseen : seen.Nodup) :
    (seen ++ (p.sift 0 seen points).filterMap Candidate.corner?).Nodup := by
  induction points generalizing seen with
  | nil => simpa [sift] using hseen
  | cons q points ih =>
    rw [corners_sift_cons h2]
    split
    · next hnew =>
      rw [List.append_cons]
      apply ih
      rw [← List.concat_eq_append]
      exact hseen.concat hnew.2
    · exact ih hseen

theorem mem_corners_sift : q ∈ (p.sift 0 seen points).filterMap Candidate.corner? ↔
    q ∈ points ∧ q ∉ seen ∧ p.Feasible q.coords := by
  induction points generalizing seen with
  | nil => simp [sift]
  | cons r points ih =>
    rw [corners_sift_cons h2]
    split
    · next hnew =>
      rw [List.mem_cons, List.mem_cons, ih, List.mem_append, List.mem_singleton]
      constructor
      · rintro (rfl | ⟨hmem, hno, hq⟩)
        · exact ⟨Or.inl rfl, hnew.2, hnew.1⟩
        · exact ⟨Or.inr hmem, fun h => hno (Or.inl h), hq⟩
      · rintro ⟨rfl | hmem, hno, hq⟩
        · exact Or.inl rfl
        · by_cases hqr : q = r
          · exact Or.inl hqr
          · exact Or.inr ⟨hmem, by simp [hno, hqr], hq⟩
    · next hold =>
      rw [List.mem_cons, ih]
      constructor
      · rintro ⟨hmem, hrest⟩
        exact ⟨Or.inr hmem, hrest⟩
      · rintro ⟨rfl | hmem, hno, hq⟩
        · exact absurd ⟨hq, hno⟩ hold
        · exact ⟨hmem, hno, hq⟩

end Sift

section Survey

variable (hl : ∀ c ∈ p.constraints, c.coefficients.length = p.variableCount)
  (h2 : p.variableCount = 2)

include h2

theorem nodup_corners_survey : (p.survey 0).corners.Nodup :=
  nodup_corners_sift h2 List.nodup_nil

include hl

/-- The corners that a survey finds are the extreme points of the region. -/
theorem mem_corners_survey :
    q ∈ (p.survey 0).corners ↔ (q.x, q.y) ∈ p.region.extremePoints ℚ := by
  rw [mem_extremePoints_region_iff hl h2]
  exact (mem_corners_sift h2).trans (by simp)

theorem feasible_of_mem_corners (hq : q ∈ (p.survey 0).corners) : p.Feasible q.coords :=
  ((mem_corners_survey hl h2).mp hq).1

omit hl in
theorem evaluate_pair (x y : ℚ) : p.objective.evaluate [x, y] =
    pairing (p.objective.coefficients.getD 0 0, p.objective.coefficients.getD 1 0) (x, y) :=
  Constraint.lhs_pair (c := ⟨p.objective.coefficients, .eq, 0⟩) h2 x y

/-- If the objective has a bound, no feasible point is better than all corners. -/
theorem exists_corner_not_worse {bound : ℚ}
    (hb : ∀ x, p.Feasible x → ¬ p.objective.improves (p.objective.evaluate x) bound = true)
    {x : List ℚ} (hx : p.Feasible x) : ∃ q ∈ (p.survey 0).corners,
      ¬ p.objective.improves (p.objective.evaluate x) (p.objective.evaluate q.coords) = true := by
  obtain ⟨u, v, rfl⟩ := List.length_eq_two.mp (hx.length_eq.trans h2)
  let n : ℚ × ℚ := p.objective.sense.sign •
    (p.objective.coefficients.getD 0 0, p.objective.coefficients.getD 1 0)
  have hn : ∀ r : ℚ × ℚ, pairing n r = p.objective.sense.sign *
      p.objective.evaluate [r.1, r.2] := by
    intro r
    rw [evaluate_pair h2]
    simp only [n, pairing, Prod.smul_fst, Prod.smul_snd, smul_eq_mul]
    ring
  have hregion := region_eq_commonPoints hl h2
  have hbound : ∀ r ∈ HalfPlane.commonPoints p.halfPlanes,
      pairing n r ≤ p.objective.sense.sign * bound := by
    intro r hr
    rw [hn, ← Objective.not_improves_iff]
    rw [← hregion] at hr
    exact hb _ hr
  have hmem : (u, v) ∈ HalfPlane.commonPoints p.halfPlanes := by
    rw [← hregion]
    exact hx
  obtain ⟨r, hr, hle⟩ := HalfPlane.exists_isVertex_ge p.isPointed_halfPlanes hbound hmem
  refine ⟨⟨r.1, r.2⟩, ?_, ?_⟩
  · rw [mem_corners_survey hl h2, hregion]
    exact hr.mem_extremePoints
  · rw [Objective.not_improves_iff, Point.coords, ← hn r]
    exact (hn (u, v)).symm.trans_le hle

/-- There is a corner unless the region is empty. -/
theorem corners_survey_eq_nil_iff : (p.survey 0).corners = [] ↔ p.region = ∅ := by
  constructor
  · intro hnil
    rw [Set.eq_empty_iff_forall_notMem]
    intro r hr
    have hzero : ∀ s ∈ HalfPlane.commonPoints p.halfPlanes, pairing 0 s ≤ 0 := fun s _ => by
      rw [zero_pairing]
    rw [region_eq_commonPoints hl h2] at hr
    obtain ⟨v, hv, -⟩ := HalfPlane.exists_isVertex_ge p.isPointed_halfPlanes hzero hr
    have hcorner : (⟨v.1, v.2⟩ : Point ℚ) ∈ (p.survey 0).corners := by
      rw [mem_corners_survey hl h2, region_eq_commonPoints hl h2]
      exact hv.mem_extremePoints
    rw [hnil] at hcorner
    cases hcorner
  · intro hempty
    rw [List.eq_nil_iff_forall_not_mem]
    intro q hq
    rw [mem_corners_survey hl h2, hempty] at hq
    exact hq.1

end Survey

section Optimum

variable {α : Type} [Scalar α]

theorem vertices_optimum (tolerance : α) (p : Problem α) (s : Survey α) :
    (p.optimum tolerance s).vertices = s.vertices p.objective := by
  rw [optimum]
  cases hv : s.vertices p.objective <;> rfl

theorem points_vertices (o : Objective α) (s : Survey α) :
    (s.vertices o).map (·.point) = s.corners := by
  simp [Survey.vertices, Function.comp_def]

theorem status_optimum (tolerance : α) (p : Problem α) (s : Survey α) :
    (p.optimum tolerance s).status = if s.corners = [] then .infeasible else .optimal := by
  rw [optimum, Survey.vertices]
  cases s.corners <;> rfl

/-- The optimal points are the corners whose value is close to the best. -/
theorem optimum_of_ne_nil (tolerance : α) (p : Problem α) {s : Survey α} (hs : s.corners ≠ []) :
    ∃ best, p.objective.best (s.vertices p.objective) = some best ∧
      (p.optimum tolerance s).optimalValue = some best ∧
      (p.optimum tolerance s).optimalPoints = s.corners.filter fun q =>
        Scalar.approxEq tolerance (p.objective.evaluate q.coords) best := by
  cases hbest : p.objective.best (s.vertices p.objective) with
  | none => exact absurd (List.map_eq_nil_iff.mp (Objective.best_eq_none_iff.mp hbest)) hs
  | some best =>
    refine ⟨best, rfl, ?_⟩
    rw [optimum, hbest]
    exact ⟨rfl, by simp [Survey.vertices, List.filter_map, Function.comp_def]⟩

/-- The optimal points are corners, and the optimal value is that of a vertex. -/
theorem mem_of_optimum (tolerance : α) (p : Problem α) (s : Survey α) :
    (∀ q ∈ (p.optimum tolerance s).optimalPoints, q ∈ s.corners) ∧
      ∀ best, (p.optimum tolerance s).optimalValue = some best →
        ∃ v ∈ (p.optimum tolerance s).vertices, v.value = best := by
  rw [vertices_optimum, optimum]
  cases hbest : p.objective.best (s.vertices p.objective) with
  | none =>
    refine ⟨?_, ?_⟩ <;> rintro _ ⟨⟩
  | some best =>
    refine ⟨fun q hq => ?_, ?_⟩
    · obtain ⟨v, hv, rfl⟩ := List.mem_map.mp hq
      rw [← points_vertices p.objective s]
      exact List.mem_map_of_mem (List.mem_filter.mp hv).1
    · rintro _ ⟨⟩
      exact Objective.exists_of_best hbest

theorem solveByCorners_of_validate (tolerance : α) {p : Problem α} (hv : p.validate = .ok ())
    (h2 : p.variableCount = 2) :
    p.solveByCorners tolerance = .ok (p.optimum tolerance (p.survey tolerance)) := by
  simp [solveByCorners, validatePlane, hv, h2, bind, Except.bind, pure, Except.pure]

end Optimum

/-- A problem in the plane is solved, its corners are the extreme points of its region without
repetition, and it is found infeasible if and only if its region is empty. -/
theorem solveByCorners_extremePoints (hv : p.validate = .ok ()) (h2 : p.variableCount = 2) :
    ∃ solution, p.solveByCorners 0 = .ok solution ∧
      (solution.vertices.map (·.point)).Nodup ∧
      (∀ q : Point ℚ, q ∈ solution.vertices.map (·.point) ↔
        (q.x, q.y) ∈ p.region.extremePoints ℚ) ∧
      (solution.status = .infeasible ↔ p.region = ∅) := by
  have hl := p.length_of_validate hv
  refine ⟨_, solveByCorners_of_validate 0 hv h2, ?_⟩
  rw [vertices_optimum, points_vertices, status_optimum, ← corners_survey_eq_nil_iff hl h2]
  refine ⟨nodup_corners_survey h2, fun q => mem_corners_survey hl h2, ?_⟩
  split
  · next hnil => exact iff_of_true rfl hnil
  · next hcons => exact iff_of_false nofun hcons

/-- An equation that is met on a segment only, a line that is listed twice, and a row without
coefficients. -/
def segmentProblem : Problem ℚ :=
  ⟨⟨[1, 1], .maximize⟩,
    [⟨[1, 1], .le, 4⟩, ⟨[1, -1], .eq, 0⟩, ⟨[0, 0], .le, 1⟩, ⟨[2, 2], .le, 8⟩]⟩

theorem solveByCorners_segmentProblem : segmentProblem.validate = .ok () ∧
    ∃ solution, segmentProblem.solveByCorners 0 = .ok solution ∧
      solution.vertices.map (·.point) = [⟨2, 2⟩, ⟨0, 0⟩] ∧
      (2, 2) ∈ segmentProblem.region.extremePoints ℚ ∧
      (1, 1) ∉ segmentProblem.region.extremePoints ℚ ∧ segmentProblem.region ≠ ∅ := by
  have hv : segmentProblem.validate = .ok () := by decide +kernel
  obtain ⟨solution, hsolve, -, hext, hempty⟩ := solveByCorners_extremePoints hv rfl
  obtain rfl := Except.ok.inj ((solveByCorners_of_validate 0 hv rfl).symm.trans hsolve)
  refine ⟨hv, _, hsolve, by decide +kernel, (hext ⟨2, 2⟩).mp (by decide +kernel), ?_, ?_⟩
  · rw [← hext ⟨1, 1⟩]
    decide +kernel
  · rw [ne_eq, ← hempty]
    decide +kernel

/-- If the objective has a bound on a region that is not empty, the best corner is optimal among all
points of the region, and the optimal points are the extreme points that attain its value. -/
theorem solveByCorners_optimal (hv : p.validate = .ok ()) (h2 : p.variableCount = 2)
    (hne : p.region.Nonempty)
    (hb : ∃ bound, ∀ x, p.Feasible x →
      ¬ p.objective.improves (p.objective.evaluate x) bound = true) :
    ∃ solution best, p.solveByCorners 0 = .ok solution ∧ solution.status = .optimal ∧
      solution.optimalValue = some best ∧
      (∃ x, p.Feasible x ∧ p.objective.evaluate x = best) ∧
      (∀ x, p.Feasible x → ¬ p.objective.improves (p.objective.evaluate x) best = true) ∧
      solution.optimalPoints.Nodup ∧
      ∀ q : Point ℚ, q ∈ solution.optimalPoints ↔
        (q.x, q.y) ∈ p.region.extremePoints ℚ ∧ p.objective.evaluate q.coords = best := by
  have hl := p.length_of_validate hv
  obtain ⟨bound, hb⟩ := hb
  obtain ⟨r, hr⟩ := hne
  have hcons : (p.survey 0).corners ≠ [] := by
    obtain ⟨q, hq, -⟩ := exists_corner_not_worse hl h2 hb hr
    exact List.ne_nil_of_mem hq
  have hstatus : (p.optimum 0 (p.survey 0)).status = .optimal := by
    rw [status_optimum, if_neg hcons]
  obtain ⟨best, hbest, hvalue, hpoints⟩ := optimum_of_ne_nil 0 p hcons
  obtain ⟨⟨w, hw, rfl⟩, hall⟩ := Objective.best_eq_some hbest
  simp only [Survey.vertices, List.forall_mem_map] at hw hall
  obtain ⟨q, hq, rfl⟩ := List.mem_map.mp hw
  refine ⟨_, _, solveByCorners_of_validate 0 hv h2, hstatus, hvalue, ?_, ?_, ?_, ?_⟩
  · exact ⟨q.coords, feasible_of_mem_corners hl h2 hq, rfl⟩
  · intro x hx
    obtain ⟨r, hr, hle⟩ := exists_corner_not_worse hl h2 hb hx
    rw [Objective.not_improves_iff] at hle ⊢
    exact hle.trans ((Objective.not_improves_iff ..).mp (hall r hr))
  · rw [hpoints]
    exact (nodup_corners_survey h2).filter _
  · intro q'
    rw [hpoints, List.mem_filter, mem_corners_survey hl h2, Scalar.approxEq_zero_iff]

/-- A region without a bound, on which the least value is attained along an edge. -/
def openProblem : Problem ℚ :=
  ⟨⟨[1, 1], .minimize⟩, [⟨[1, 1], .ge, 2⟩, ⟨[1, -1], .le, 1⟩]⟩

theorem solveByCorners_openProblem : openProblem.validate = .ok () ∧
    ∃ solution, openProblem.solveByCorners 0 = .ok solution ∧ solution.status = .optimal ∧
      solution.optimalValue = some 2 ∧ solution.optimalPoints = [⟨3 / 2, 1 / 2⟩, ⟨0, 2⟩] ∧
      ∀ x, openProblem.Feasible x → 2 ≤ openProblem.objective.evaluate x := by
  have hv : openProblem.validate = .ok () := by decide +kernel
  have hne : openProblem.region.Nonempty :=
    ⟨(0, 2), show openProblem.Feasible [0, 2] by decide +kernel⟩
  have hbound : ∀ x, ¬ openProblem.objective.improves (openProblem.objective.evaluate x) 2 = true ↔
      2 ≤ openProblem.objective.evaluate x := fun x =>
    (Objective.not_improves_iff ..).trans (mul_le_mul_left_of_neg (show (-1 : ℚ) < 0 by norm_num))
  obtain ⟨solution, best, hsolve, hstatus, hvalue, -, hbest, -⟩ :=
    solveByCorners_optimal hv rfl hne
      ⟨2, fun x hx => (hbound x).mpr (hx.holds ⟨[1, 1], .ge, 2⟩ List.mem_cons_self)⟩
  obtain rfl := Except.ok.inj ((solveByCorners_of_validate 0 hv rfl).symm.trans hsolve)
  obtain rfl : best = 2 := Option.some.inj (hvalue.symm.trans (by decide +kernel))
  exact ⟨hv, _, hsolve, hstatus, hvalue, by decide +kernel, fun x hx =>
    (hbound x).mp (hbest x hx)⟩

end Problem

end LinearProgram
