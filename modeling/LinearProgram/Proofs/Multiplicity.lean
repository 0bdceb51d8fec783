import LinearProgram.Proofs.Corners
import LinearProgram.Proofs.Ties

/-! # Unique and multiple optima

Corner enumeration calls an optimum unique if one corner attains it, the simplex method if no column
ties. The two agree where ties lead somewhere and the optimal points end in corners: if no basic
variable is at zero, no artificial is left in the way, and the optimal points are bounded. Without
these a unique optimum of the simplex method is still one of the corners.
-/

namespace LinearProgram

namespace HalfPlane

variable {h : HalfPlane} {l : List HalfPlane} {q r : ℚ × ℚ}

section Face

variable (hall : ∀ q ∈ commonPoints l, h.Contains q)

include hall

theorem mem_face_iff : q ∈ commonPoints (h.opposite :: l) ↔ q ∈ commonPoints l ∧ h.Tight q := by
  constructor
  · intro hq
    obtain ⟨hopposite, hmem⟩ := List.forall_mem_cons.mp hq
    exact ⟨hmem, le_antisymm (hall q hmem) (contains_opposite.mp hopposite)⟩
  · rintro ⟨hmem, htight⟩
    exact List.forall_mem_cons.mpr ⟨contains_opposite.mpr htight.ge, hmem⟩

theorem isExtreme_face : IsExtreme ℚ (commonPoints l) (commonPoints (h.opposite :: l)) := by
  constructor
  · exact fun q hq => ((mem_face_iff hall).mp hq).1
  · intro q hq r hr s hs hseg
    have htight := ((mem_face_iff hall).mp hs).2
    exact (mem_face_iff hall).mpr
      ⟨hq, htight.left_of_mem_openSegment (hall q hq) (hall r hr) hseg⟩

/-- Two points of a bounded face have two extreme points of the whole around them. -/
theorem exists_extremePoints_face (hp : IsPointed l)
    (hbounded : ∀ d, ∃ bound, ∀ s ∈ commonPoints l, h.Tight s → pairing d s ≤ bound)
    (hq : q ∈ commonPoints l) (htq : h.Tight q) (hr : r ∈ commonPoints l) (htr : h.Tight r)
    (hne : q ≠ r) : ∃ v ∈ (commonPoints l).extremePoints ℚ,
      ∃ w ∈ (commonPoints l).extremePoints ℚ, h.Tight v ∧ h.Tight w ∧ v ≠ w := by
  have hpointed : IsPointed (h.opposite :: l) := fun d hd => by
    obtain ⟨k, hk, hkd⟩ := hp d hd
    exact ⟨k, List.mem_cons_of_mem _ hk, hkd⟩
  -- Far in every direction the face has a vertex.
  have hvertex : ∀ d, ∀ s ∈ commonPoints l, h.Tight s →
      ∃ v ∈ (commonPoints l).extremePoints ℚ, h.Tight v ∧ pairing d s ≤ pairing d v := by
    intro d s hs hts
    obtain ⟨bound, hbound⟩ := hbounded d
    have hface : ∀ s ∈ commonPoints (h.opposite :: l), pairing d s ≤ bound := fun s hs =>
      hbound s ((mem_face_iff hall).mp hs).1 ((mem_face_iff hall).mp hs).2
    obtain ⟨v, hv, hle⟩ := exists_isVertex_ge hpointed hface ((mem_face_iff hall).mpr ⟨hs, hts⟩)
    exact ⟨v, (isExtreme_face hall).extremePoints_subset_extremePoints hv.mem_extremePoints,
      ((mem_face_iff hall).mp hv.mem).2, hle⟩
  obtain ⟨v, hv, htv, hqv⟩ := hvertex (q - r) q hq htq
  obtain ⟨w, hw, htw, hrw⟩ := hvertex (-(q - r)) r hr htr
  refine ⟨v, hv, w, hw, htv, htw, ?_⟩
  rintro rfl
  rw [neg_pairing, neg_pairing, neg_le_neg_iff] at hrw
  have hle := hqv.trans hrw
  have hsquares : (q.1 - r.1) * (q.1 - r.1) + (q.2 - r.2) * (q.2 - r.2) ≤ 0 := by
    simp only [pairing, Prod.fst_sub, Prod.snd_sub] at hle
    linarith
  obtain ⟨h1, h2⟩ := (add_eq_zero_iff_of_nonneg (mul_self_nonneg _) (mul_self_nonneg _)).mp
    (le_antisymm hsquares (add_nonneg (mul_self_nonneg _) (mul_self_nonneg _)))
  exact hne (Prod.ext (sub_eq_zero.mp (mul_self_eq_zero.mp h1))
    (sub_eq_zero.mp (mul_self_eq_zero.mp h2)))

end Face

end HalfPlane

namespace Problem

variable {p : Problem ℚ} {x y : List ℚ}

/-- No coordinate of an optimal point is larger. -/
def BoundsOptima (p : Problem ℚ) (bound : ℚ) : Prop := ∀ x, p.Optimal x → ∀ v ∈ x, v ≤ bound

theorem Optimal.iff_feasible_of_evaluate_eq (hx : p.Optimal x) :
    p.Optimal y ↔ p.Feasible y ∧ p.objective.evaluate y = p.objective.evaluate x :=
  ⟨fun hy => ⟨hy.toFeasible, hy.evaluate_eq hx⟩, fun h => ⟨h.1, fun z hz => h.2 ▸ hx.best z hz⟩⟩

/-- The direction in which the objective gains. -/
def ascent (p : Problem ℚ) : ℚ × ℚ :=
  p.objective.sense.sign • (p.objective.coefficients.getD 0 0, p.objective.coefficients.getD 1 0)

theorem pairing_ascent (h2 : p.variableCount = 2) (q : ℚ × ℚ) :
    pairing p.ascent q = p.objective.sense.sign * p.objective.evaluate [q.1, q.2] := by
  rw [evaluate_pair h2]
  simp only [ascent, pairing, Prod.smul_fst, Prod.smul_snd, smul_eq_mul]
  ring

theorem solutionType_optimum {s : Survey ℚ} (hs : s.corners ≠ []) :
    (p.optimum 0 s).solutionType =
      some (if (p.optimum 0 s).optimalPoints.length = 1 then .unique else .multiple) := by
  rw [optimum]
  cases hbest : p.objective.best (s.vertices p.objective) with
  | none => exact absurd (List.map_eq_nil_iff.mp (Objective.best_eq_none_iff.mp hbest)) hs
  | some best => rfl

section Plane

variable (hl : ∀ c ∈ p.constraints, c.coefficients.length = p.variableCount)
  (h2 : p.variableCount = 2) (hx : p.Optimal x)

include hl h2 hx

/-- Where there is an optimum there is an optimal corner. -/
theorem exists_optimal_corner : ∃ q ∈ (p.survey 0).corners, p.Optimal q.coords := by
  obtain ⟨q, hq, hqx⟩ := exists_corner_not_worse hl h2 hx.best hx.toFeasible
  refine ⟨q, hq, feasible_of_mem_corners hl h2 hq, fun y hy => ?_⟩
  have hyx := hx.best y hy
  rw [Objective.not_improves_iff] at hqx hyx ⊢
  exact hyx.trans hqx

/-- The points that are reported are the optimal corners, each once. -/
theorem mem_optimalPoints_iff : (p.optimum 0 (p.survey 0)).optimalPoints.Nodup ∧
    ∀ q : Point ℚ, q ∈ (p.optimum 0 (p.survey 0)).optimalPoints ↔
      q ∈ (p.survey 0).corners ∧ p.Optimal q.coords := by
  obtain ⟨q, hq, hopt⟩ := exists_optimal_corner hl h2 hx
  obtain ⟨best, hbest, -, hpoints⟩ := optimum_of_ne_nil 0 p (List.ne_nil_of_mem hq)
  obtain ⟨⟨v, hv, rfl⟩, hall⟩ := Objective.best_eq_some hbest
  simp only [Survey.vertices, List.forall_mem_map] at hv hall
  obtain ⟨r, hr, rfl⟩ := List.mem_map.mp hv
  have hvalue : p.objective.evaluate r.coords = p.objective.evaluate q.coords := by
    have hqr := hall q hq
    have hrq := hopt.best _ (feasible_of_mem_corners hl h2 hr)
    rw [Objective.not_improves_iff] at hqr hrq
    have hne : p.objective.sense.sign ≠ 0 := by cases p.objective.sense <;> simp [Sense.sign]
    exact mul_left_cancel₀ hne (le_antisymm hrq hqr)
  refine ⟨?_, fun q' => ?_⟩
  · rw [hpoints]
    exact (nodup_corners_survey h2).filter _
  · rw [hpoints, List.mem_filter, Scalar.approxEq_zero_iff, hvalue,
      hopt.iff_feasible_of_evaluate_eq]
    exact and_congr_right fun hcorner =>
      ⟨fun h => ⟨feasible_of_mem_corners hl h2 hcorner, h⟩, And.right⟩

/-- A single optimal point is a single optimal corner. -/
theorem length_optimalPoints_eq_one (hall : ∀ y, p.Optimal y → y = x) :
    (p.optimum 0 (p.survey 0)).optimalPoints.length = 1 := by
  obtain ⟨hnodup, hmem⟩ := mem_optimalPoints_iff hl h2 hx
  obtain ⟨q, hq, hopt⟩ := exists_optimal_corner hl h2 hx
  have hsame : ∀ r ∈ (p.optimum 0 (p.survey 0)).optimalPoints, r = q := by
    intro r hr
    have heq := (hall _ ((hmem r).mp hr).2).trans (hall _ hopt).symm
    simpa [Point.coords, ← Point.mk.injEq] using heq
  rw [List.eq_replicate_of_mem hsame, List.nodup_replicate] at hnodup
  exact le_antisymm hnodup (List.length_pos_of_mem ((hmem q).mpr ⟨hq, hopt⟩))

/-- Two optimal points among bounded ones lie between two optimal corners. -/
theorem length_optimalPoints_ne_one {bound : ℚ} (hbound : p.BoundsOptima bound)
    (hy : p.Optimal y) (hne : x ≠ y) :
    (p.optimum 0 (p.survey 0)).optimalPoints.length ≠ 1 := by
  obtain ⟨u, v, rfl⟩ := List.length_eq_two.mp (hx.length_eq.trans h2)
  obtain ⟨u', v', rfl⟩ := List.length_eq_two.mp (hy.length_eq.trans h2)
  have hregion := region_eq_commonPoints hl h2
  let best : HalfPlane := ⟨p.ascent, pairing p.ascent (u, v)⟩
  have hsign : p.objective.sense.sign ≠ 0 := by cases p.objective.sense <;> simp [Sense.sign]
  have htight : ∀ q : ℚ × ℚ, q ∈ HalfPlane.commonPoints p.halfPlanes →
      (best.Tight q ↔ p.Optimal [q.1, q.2]) := by
    intro q hq
    rw [← hregion] at hq
    change pairing p.ascent q = pairing p.ascent (u, v) ↔ _
    rw [pairing_ascent h2, pairing_ascent h2, mul_right_inj' hsign,
      hx.iff_feasible_of_evaluate_eq]
    exact (and_iff_right hq).symm
  have hall : ∀ q ∈ HalfPlane.commonPoints p.halfPlanes, best.Contains q := by
    intro q hq
    rw [← hregion] at hq
    change pairing p.ascent q ≤ pairing p.ascent (u, v)
    rw [pairing_ascent h2, pairing_ascent h2, ← Objective.not_improves_iff]
    exact hx.best _ hq
  have hbounded : ∀ d, ∃ most, ∀ q ∈ HalfPlane.commonPoints p.halfPlanes, best.Tight q →
      pairing d q ≤ most := by
    refine fun d => ⟨|d.1| * bound + |d.2| * bound, fun q hq hq' => ?_⟩
    have hopt := (htight q hq).mp hq'
    have hle : ∀ a : ℚ, ∀ b ∈ [q.1, q.2], a * b ≤ |a| * bound := fun a b hb =>
      (mul_le_mul_of_nonneg_right (le_abs_self a) (hopt.nonneg b hb)).trans
        (mul_le_mul_of_nonneg_left (hbound _ hopt b hb) (abs_nonneg a))
    exact add_le_add (hle d.1 q.1 (by simp)) (hle d.2 q.2 (by simp))
  have hmem : ∀ r : ℚ × ℚ, p.Optimal [r.1, r.2] → r ∈ HalfPlane.commonPoints p.halfPlanes :=
    fun r hr => hregion ▸ hr.toFeasible
  obtain ⟨w, hw, w', hw', htw, htw', hww⟩ := HalfPlane.exists_extremePoints_face hall
    p.isPointed_halfPlanes hbounded (hmem (u, v) hx) ((htight _ (hmem (u, v) hx)).mpr hx)
    (hmem (u', v') hy) ((htight _ (hmem (u', v') hy)).mpr hy) fun heq => hne (by
      rw [(Prod.mk.inj heq).1, (Prod.mk.inj heq).2])
  have hcorner : ∀ r : ℚ × ℚ, r ∈ (HalfPlane.commonPoints p.halfPlanes).extremePoints ℚ →
      best.Tight r → (⟨r.1, r.2⟩ : Point ℚ) ∈ (p.optimum 0 (p.survey 0)).optimalPoints := by
    intro r hr htr
    refine ((mem_optimalPoints_iff hl h2 hx).2 _).mpr ⟨?_, (htight r hr.1).mp htr⟩
    rw [mem_corners_survey hl h2, hregion]
    exact hr
  intro hone
  obtain ⟨q, hq⟩ := List.length_eq_one_iff.mp hone
  have hleft := hcorner w hw htw
  have hright := hcorner w' hw' htw'
  rw [hq, List.mem_singleton] at hleft hright
  obtain ⟨h1, h2⟩ := Point.mk.inj (hleft.trans hright.symm)
  exact hww (Prod.ext h1 h2)

end Plane

end Problem

namespace Leg

variable {leg : Leg ℚ} {p : Problem ℚ}
  (hl : ∀ c ∈ p.constraints, c.coefficients.length = p.variableCount)
  (ho : leg.Optimizes p) (h0 : leg.goal.tolerance = 0)
  (hlevel : leg.stage.final.ArtificialsAtMost 0) (h : (leg.outcome p).status = .optimal)

include hl ho h0 hlevel h

/-- If a stage without a tolerance ends with a unique optimum, no other point is optimal. -/
theorem Optimizes.eq_assignment (hunique : (leg.outcome p).solutionType = some .unique)
    {y : List ℚ} (hy : p.Optimal y) : y = (leg.outcome p).assignment := by
  have he : leg.IsExact := isExact_of_tolerance_eq_zero h0
  have hopt := ho.optimal hl h0.ge he hlevel h
  obtain ⟨hend, hassign⟩ := outcome_of_optimal h
  obtain ⟨hform, penalty, hprices⟩ := ho.final h0.ge he
  rw [hassign] at hopt ⊢
  refine hform.eq_assignment hl ho.loaded.columns_eq hprices hlevel hopt (ho.gain_nonpos he hend)
    ho.barred ?_ hy
  rw [outcome, hend] at hunique
  simpa [Outcome.finish, h0] using hunique

/-- If it ends with multiple optima and leads away from the final tableau, another point is
optimal. -/
theorem Optimizes.exists_ne_assignment (hmultiple : (leg.outcome p).solutionType = some .multiple)
    (hdegenerate : (leg.outcome p).degenerate = false)
    (hidle : ∀ i, leg.stage.final.IsIdleAt i) :
    ∃ y, p.Optimal y ∧ y ≠ (leg.outcome p).assignment := by
  have he : leg.IsExact := isExact_of_tolerance_eq_zero h0
  have hopt := ho.optimal hl h0.ge he hlevel h
  obtain ⟨hend, hassign⟩ := outcome_of_optimal h
  obtain ⟨hform, penalty, hprices⟩ := ho.final h0.ge he
  rw [outcome, hend] at hmultiple hdegenerate
  rw [hassign] at hopt ⊢
  refine hform.exists_ne_assignment hl ho.loaded.columns_eq hprices hlevel hopt ?_ ?_ hidle
  · simpa [Outcome.finish, h0] using hmultiple
  · simp only [Outcome.finish, h0] at hdegenerate
    exact Tableau.isDegenerate_zero_eq_false.mp hdegenerate

end Leg

namespace SimplexSettings

variable {s : SimplexSettings ℚ} {p : Problem ℚ}

/-- No artificial that a solve under the penalty leaves basic is in the way of another column. -/
def LeavesIdle (s : SimplexSettings ℚ) (p : Problem ℚ) : Prop :=
  s.discipline = .bigM → s.isRechecked p = false → ∀ i, (s.penaltyLeg p).stage.final.IsIdleAt i

/-- An optimum that a solve without a tolerance calls unique is the only point of the region with
the optimal value. Artificials that are still basic at zero leave no way out. -/
theorem optimum_unique (hv : p.validate = .ok ()) (discipline : Discipline) (cap : Option ℕ)
    (bigM : ℚ) : ∃ solution,
      (⟨cap, 0, discipline, bigM⟩ : SimplexSettings ℚ).solve p = .ok solution ∧
      (solution.status = .optimal → solution.solutionType = some .unique →
        ∃ best, solution.optimalValue = some best ∧ ∀ x,
          p.Feasible x ∧ p.objective.evaluate x = best ↔ x = solution.assignment) := by
  have hl := p.length_of_validate hv
  refine ⟨_, solve_of_validate hv, fun hstatus hunique => ?_⟩
  rw [status_run] at hstatus
  rw [solutionType_run] at hunique
  rw [optimalValue_run, assignment_run]
  obtain ⟨ho, h0, hlevel, -⟩ := optimizes_lastLeg hl rfl hstatus
  have hlast := outcome_lastLeg hstatus
  rw [← hlast] at hstatus hunique ⊢
  have hopt := ho.optimal hl h0.ge (Leg.isExact_of_tolerance_eq_zero h0) hlevel hstatus
  refine ⟨_, Leg.optimalValue_of_optimal hstatus, fun x => ?_⟩
  rw [← hopt.iff_feasible_of_evaluate_eq]
  constructor
  · exact ho.eq_assignment hl h0 hlevel hstatus hunique
  · rintro rfl
    exact hopt

/-- The artificial of the redundant equation stays basic at zero. -/
theorem optimum_unique_redundantProblem : redundantProblem.validate = .ok () ∧
    ∃ solution, (⟨none, 0, .twoPhase, 1⟩ : SimplexSettings ℚ).solve redundantProblem =
        .ok solution ∧ solution.status = .optimal ∧ solution.solutionType = some .unique ∧
      ∀ x, redundantProblem.Feasible x ∧ redundantProblem.objective.evaluate x = 7 / 2 ↔
        x = [1 / 2, 3 / 2] := by
  have hv : redundantProblem.validate = .ok () := by decide +kernel
  obtain ⟨solution, hsolve, hunique⟩ := optimum_unique hv .twoPhase none 1
  obtain ⟨-, rfl⟩ := validate_of_solve hsolve
  have hstatus : ((⟨none, 0, .twoPhase, 1⟩ : SimplexSettings ℚ).run
      redundantProblem).solution.status = .optimal := by decide +kernel
  have htype : ((⟨none, 0, .twoPhase, 1⟩ : SimplexSettings ℚ).run
      redundantProblem).solution.solutionType = some .unique := by decide +kernel
  have hvalue : ((⟨none, 0, .twoPhase, 1⟩ : SimplexSettings ℚ).run
      redundantProblem).solution.optimalValue = some (7 / 2) := by decide +kernel
  have hassign : ((⟨none, 0, .twoPhase, 1⟩ : SimplexSettings ℚ).run
      redundantProblem).solution.assignment = [1 / 2, 3 / 2] := by decide +kernel
  obtain ⟨best, hbest, honly⟩ := hunique hstatus htype
  obtain rfl : best = 7 / 2 := Option.some.inj (hbest.symm.trans hvalue)
  rw [hassign] at honly
  exact ⟨hv, _, hsolve, hstatus, htype, honly⟩

/-- Where the simplex method finds an optimum, corner enumeration does. An optimum that is unique
for the simplex method is unique among the corners. If moreover no basic variable is at zero, no
artificial is in the way and the optimal points are bounded, both give one type. -/
theorem solutionTypes_agree (hv : p.validate = .ok ()) (h2 : p.variableCount = 2)
    (discipline : Discipline) (cap : Option ℕ) (bigM : ℚ) :
    let s : SimplexSettings ℚ := ⟨cap, 0, discipline, bigM⟩
    ∃ a b, s.solve p = .ok a ∧ p.solveByCorners 0 = .ok b ∧
      (a.status = .optimal → b.status = .optimal ∧
        (a.solutionType = some .unique → b.solutionType = some .unique) ∧
        (a.degenerate = false → s.LeavesIdle p → (∃ bound, p.BoundsOptima bound) →
          a.solutionType = b.solutionType)) := by
  intro s
  have hl := p.length_of_validate hv
  refine ⟨_, _, solve_of_validate hv, Problem.solveByCorners_of_validate 0 hv h2, fun hstatus => ?_⟩
  rw [status_run] at hstatus
  have htype : (s.run p).solution.solutionType = (s.outcome p).solutionType :=
    congrArg Outcome.solutionType (s.outcome_run p)
  have hdegenerate : (s.run p).solution.degenerate = (s.outcome p).degenerate :=
    congrArg Outcome.degenerate (s.outcome_run p)
  obtain ⟨ho, h0, hlevel, hidle⟩ := optimizes_lastLeg hl rfl hstatus
  have hlast := outcome_lastLeg hstatus
  rw [htype, hdegenerate, ← hlast]
  rw [← hlast] at hstatus
  have hopt := ho.optimal hl h0.ge (Leg.isExact_of_tolerance_eq_zero h0) hlevel hstatus
  obtain ⟨q, hq, -⟩ := Problem.exists_optimal_corner hl h2 hopt
  have hcons : (p.survey 0).corners ≠ [] := List.ne_nil_of_mem hq
  have hsingle : ((s.lastLeg p).outcome p).solutionType = some .unique →
      (p.optimum 0 (p.survey 0)).solutionType = some .unique := by
    intro hunique
    rw [Problem.solutionType_optimum hcons, if_pos]
    exact Problem.length_optimalPoints_eq_one hl h2 hopt fun y hy =>
      ho.eq_assignment hl h0 hlevel hstatus hunique hy
  refine ⟨by rw [Problem.status_optimum, if_neg hcons], hsingle, ?_⟩
  rintro hdeg hleaves ⟨bound, hbound⟩
  obtain ⟨hend, -⟩ := Leg.outcome_of_optimal hstatus
  cases hfound : ((s.lastLeg p).outcome p).solutionType with
  | none =>
    rw [Leg.outcome, hend] at hfound
    cases hfound
  | some found =>
    cases found with
    | unique => exact (hsingle hfound).symm
    | multiple =>
      have hidle := hidle fun hd hfrom => hleaves hd (isRechecked_eq_false_of_direct hd hfrom)
      obtain ⟨y, hy, hne⟩ :=
        ho.exists_ne_assignment hl h0 hlevel hstatus hfound hdeg hidle
      rw [Problem.solutionType_optimum hcons, if_neg]
      exact Problem.length_optimalPoints_ne_one hl h2 hopt hbound hy hne.symm

/-- The least value is attained along an edge with two ends, found under the penalty. -/
theorem solutionTypes_agree_openProblem :
    ∃ a b, (⟨none, 0, .bigM, 2⟩ : SimplexSettings ℚ).solve Problem.openProblem = .ok a ∧
      Problem.openProblem.solveByCorners 0 = .ok b ∧ a.status = .optimal ∧ b.status = .optimal ∧
      a.solutionType = some .multiple ∧ b.solutionType = some .multiple := by
  have hv : Problem.openProblem.validate = .ok () := by decide +kernel
  obtain ⟨a, b, ha, hb, hagree⟩ := solutionTypes_agree hv rfl .bigM none 2
  obtain ⟨-, rfl⟩ := validate_of_solve ha
  have hoptimal : ((⟨none, 0, .bigM, 2⟩ : SimplexSettings ℚ).run
      Problem.openProblem).solution.status = .optimal := by decide +kernel
  have hmultiple : ((⟨none, 0, .bigM, 2⟩ : SimplexSettings ℚ).run
      Problem.openProblem).solution.solutionType = some .multiple := by decide +kernel
  have hidle : (⟨none, 0, .bigM, 2⟩ : SimplexSettings ℚ).LeavesIdle Problem.openProblem := by
    intro _ _ i r hr
    have hnone : ∀ r ∈ ((⟨none, 0, .bigM, 2⟩ : SimplexSettings ℚ).penaltyLeg
        Problem.openProblem).stage.final.rows, ((⟨none, 0, .bigM, 2⟩ : SimplexSettings ℚ).penaltyLeg
          Problem.openProblem).stage.final.isArtificial r.basic = false := by decide +kernel
    rw [hnone r (List.mem_of_getElem? hr)]
    nofun
  have hbound : Problem.openProblem.BoundsOptima 2 := by
    intro x hx v hv
    have hbest := hx.best [0, 2] (by decide +kernel)
    obtain ⟨u, w, rfl⟩ := List.length_eq_two.mp hx.length_eq
    have hnonneg := hx.nonneg
    simp [Objective.improves, Objective.evaluate, Problem.openProblem, Scalar.dot, Scalar.sum_eq]
      at hbest hnonneg hv
    rcases hv with rfl | rfl <;> linarith [hnonneg.1, hnonneg.2]
  obtain ⟨hstatus, -, htype⟩ := hagree hoptimal
  exact ⟨_, b, ha, hb, hoptimal, hstatus, hmultiple,
    (htype (by decide +kernel) hidle ⟨2, hbound⟩).symm.trans hmultiple⟩

/-- Three boundaries meet in the only optimal point, and a tie there leads nowhere. -/
def stuckProblem : Problem ℚ := ⟨⟨[1, 0], .maximize⟩, [⟨[1, 0], .le, 1⟩, ⟨[1, 1], .le, 1⟩]⟩

/-- The least value is attained along an edge with one end. -/
def rayProblem : Problem ℚ := ⟨⟨[0, 1], .minimize⟩, [⟨[0, 1], .ge, 1⟩]⟩

/-- The row of an artificial at zero keeps a variable with a zero reduced cost from growing. -/
def heldProblem : Problem ℚ := ⟨⟨[1, 1], .maximize⟩, [⟨[-1, 0], .eq, 0⟩, ⟨[0, 1], .le, 1⟩]⟩

theorem solutionTypes_disagree :
    let found := fun (d : Discipline) (bigM : ℚ) (p : Problem ℚ) =>
      let solution := ((⟨none, 0, d, bigM⟩ : SimplexSettings ℚ).run p).solution
      (solution.status, solution.solutionType, solution.degenerate)
    let corners := fun (p : Problem ℚ) =>
      let solution := p.optimum 0 (p.survey 0)
      (p.validate, solution.status, solution.solutionType)
    (∀ p ∈ [stuckProblem, rayProblem, heldProblem],
      corners p = (.ok (), .optimal, some .unique)) ∧
    (∀ d ∈ [Discipline.bigM, .twoPhase], ∀ bigM ∈ [(1 : ℚ), 1000000],
      found d bigM stuckProblem = (.optimal, some .multiple, true) ∧
      found d bigM rayProblem = (.optimal, some .multiple, false)) ∧
    found .bigM 1 heldProblem = (.optimal, some .multiple, false) := by
  decide +kernel

end SimplexSettings

end LinearProgram
