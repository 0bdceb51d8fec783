import LinearProgram.CommandLine.Report
import LinearProgram.Proofs.Corners
import LinearProgram.Proofs.Double.Exact
import LinearProgram.Proofs.Double.Order
import LinearProgram.Proofs.Validation

/-! # Two ways to check a point

The report on a point and the checks of corner enumeration judge it apart. The report compares
coordinates with zero and asks whether a row is violated; the checks allow coordinates the tolerance
and ask whether a row holds. They agree on points without a negative coordinate as long as nothing
is not a number.
-/

namespace LinearProgram

namespace Scalar

open Double

variable {x y : Float}

theorem one_le_larger (hx : 1 ≤ x) (y : Float) : 1 ≤ larger x y := by
  obtain ⟨h1, hnan, -⟩ := le_iff.mp hx
  have hlarger : larger x y = if y < x || y.isNaN then x else y := rfl
  rw [hlarger]
  split
  · exact hx
  · next hnot =>
    simp only [Bool.or_eq_true, decide_eq_true_eq, not_or, Bool.not_eq_true] at hnot
    exact Double.le_trans hx ((not_lt_iff hnot.2 hnan).mp hnot.1)

theorem pos_larger_zero (x : Float) : 0 < larger x 0 ↔ 0 < x := by
  have hlarger : larger x 0 = if 0 < x || (0 : Float).isNaN then x else 0 := rfl
  rw [hlarger, isNaN_of_isFinite isFinite_zero, Bool.or_false]
  split
  · exact Iff.rfl
  · next hnot =>
    exact iff_of_false (by decide +kernel) (by simpa using hnot)

/-- The slack of a comparison is not negative, whatever is compared. -/
theorem nonneg_slack (x y : Float) : 0 ≤ (defaultTolerance : Float) * scale x y := by
  have hone : (1 : Float) ≤ 1 := by decide +kernel
  have hscale : 1 ≤ scale x y := one_le_larger (one_le_larger hone _) _
  have htolerance : (defaultTolerance : Float).isFinite = true := by decide +kernel
  have hpositive : (0 : Float) < defaultTolerance := by decide +kernel
  refine nonneg_mul htolerance ?_ (Double.le_trans (by decide +kernel) hscale)
  have hpos := (lt_iff.mp hpositive).2.2
  rwa [position_zero, position_of_isFinite htolerance, mark_lt_mark] at hpos

end Scalar

namespace Relation

open Double

variable {lhs bound : Float} {relation : Relation}

theorem isNaN_of_holds (h : relation.holds Scalar.defaultTolerance lhs bound = true) :
    lhs.isNaN = false := by
  cases relation with
  | le =>
    have hle : lhs ≤ bound + Scalar.defaultTolerance * Scalar.scale lhs bound := of_decide_eq_true h
    exact (le_iff.mp hle).1
  | ge =>
    have hle : bound - Scalar.defaultTolerance * Scalar.scale lhs bound ≤ lhs := of_decide_eq_true h
    exact (le_iff.mp hle).2.1
  | eq =>
    have hle : (lhs - bound).abs ≤ Scalar.defaultTolerance * Scalar.scale lhs bound :=
      of_decide_eq_true h
    have hnan := (le_iff.mp hle).1
    rw [isNaN_abs] at hnan
    cases hlhs : lhs.isNaN with
    | false => rfl
    | true =>
      rw [isNaN_sub_of_isNaN hlhs] at hnan
      cases hnan

end Relation

namespace CommandLine

open Double

variable {c : Constraint Float} {p : Problem Float} {point : List Float}

/-- A row that is a number holds if it is not violated. -/
theorem isSatisfied_of_not_violated (hb : c.bound.isFinite = true)
    (hlhs : (c.lhs point).isNaN = false) (h : ¬ 0 < c.violation point) :
    c.isSatisfied Scalar.defaultTolerance point = true := by
  have hslack := Scalar.nonneg_slack (c.lhs point) c.bound
  obtain ⟨hadd, hsub⟩ := le_with_slack (x := c.lhs point) hb hslack
  obtain ⟨hdiff, -, hover, hunder⟩ := sub_pos_of_lt hlhs hb
  have hbound := isNaN_of_isFinite hb
  obtain ⟨coefficients, relation, bound⟩ := c
  cases relation with
  | le =>
    rw [Constraint.violation, Scalar.pos_larger_zero] at h
    exact decide_eq_true (hadd ((not_lt_iff hbound hlhs).mp fun hlt => h (hover hlt)))
  | ge =>
    rw [Constraint.violation, Scalar.pos_larger_zero] at h
    exact decide_eq_true (hsub ((not_lt_iff hlhs hbound).mp fun hlt => h (hunder hlt)))
  | eq =>
    have habs : (Constraint.lhs ⟨coefficients, .eq, bound⟩ point - bound).abs.isNaN = false := by
      rw [isNaN_abs]
      exact hdiff
    have hzero := (not_lt_iff (isNaN_of_isFinite isFinite_zero) habs).mp h
    exact decide_eq_true (Double.le_trans hzero hslack)

/-- A row that is a number passes if and only if it holds. -/
theorem passes_iff (hb : c.bound.isFinite = true) (hlhs : (c.lhs point).isNaN = false) :
    passes c point = true ↔ c.isSatisfied Scalar.defaultTolerance point = true := by
  constructor
  · intro h
    by_cases hviolated : 0 < c.violation point
    · simpa [passes, hviolated] using h
    · exact isSatisfied_of_not_violated hb hlhs hviolated
  · intro h
    simp [passes, h]

/-- A number passes as a coordinate if it is not negative. -/
theorem holds_of_not_neg {v : Float} (hnan : v.isNaN = false) (hv : ¬ v < 0) :
    Relation.ge.holds Scalar.defaultTolerance v 0 = true := by
  have h0 : 0 ≤ v := (not_lt_iff hnan (isNaN_of_isFinite isFinite_zero)).mp hv
  exact decide_eq_true ((le_with_slack isFinite_zero (Scalar.nonneg_slack v 0)).2 h0)

theorem isFeasible_coords_iff {q : Point Float} : isFeasible p q.coords = true ↔
    (¬ q.x < 0 ∧ ¬ q.y < 0) ∧ ∀ c ∈ p.constraints, passes c q.coords = true := by
  simp [isFeasible, Point.coords]

/-- A point without a negative coordinate meets all checks if and only if the report finds it
feasible and nothing about it is not a number. -/
theorem checks_iff_isFeasible (hv : p.validate = .ok ()) (q : Point Float) :
    ((p.checksAt Scalar.defaultTolerance q).all (·.satisfied) = true ∧ ¬ q.x < 0 ∧ ¬ q.y < 0) ↔
      (isFeasible p q.coords = true ∧ q.x.isNaN = false ∧ q.y.isNaN = false ∧
        ∀ c ∈ p.constraints, (c.lhs q.coords).isNaN = false) := by
  have hbound : ∀ c ∈ p.constraints, c.bound.isFinite = true := fun c hc =>
    (Scalar.isFinite_iff _).mp ((Problem.of_validate hv).2 c hc).2.2
  rw [Problem.all_satisfied_iff, isFeasible_coords_iff]
  constructor
  · rintro ⟨⟨hx, hy, hrows⟩, hx0, hy0⟩
    have hlhs : ∀ c ∈ p.constraints, (c.lhs q.coords).isNaN = false := fun c hc =>
      Relation.isNaN_of_holds (hrows c hc)
    exact ⟨⟨⟨hx0, hy0⟩, fun c hc => (passes_iff (hbound c hc) (hlhs c hc)).mpr (hrows c hc)⟩,
      Relation.isNaN_of_holds hx, Relation.isNaN_of_holds hy, hlhs⟩
  · rintro ⟨⟨⟨hx0, hy0⟩, hrows⟩, hx, hy, hlhs⟩
    exact ⟨⟨holds_of_not_neg hx hx0, holds_of_not_neg hy hy0, fun c hc =>
      (passes_iff (hbound c hc) (hlhs c hc)).mp (hrows c hc)⟩, hx0, hy0⟩

/-- One row between the variables. -/
def halfPlaneProblem : Problem Float := ⟨⟨[1, 1], .maximize⟩, [⟨[1, 1], .le, 4⟩]⟩

/-- A point on the boundary, judged feasible by both. -/
theorem checks_iff_isFeasible_halfPlaneProblem : halfPlaneProblem.validate = .ok () ∧
    isFeasible halfPlaneProblem [1, 3] = true ∧
    (halfPlaneProblem.checksAt Scalar.defaultTolerance ⟨1, 3⟩).all (·.satisfied) = true := by
  have hv : halfPlaneProblem.validate = .ok () := by decide +kernel
  have hfeasible : isFeasible halfPlaneProblem [1, 3] = true := by decide +kernel
  exact ⟨hv, hfeasible, ((checks_iff_isFeasible hv ⟨1, 3⟩).mpr
    ⟨hfeasible, by decide +kernel, by decide +kernel, by decide +kernel⟩).1⟩

/-- The report refuses a coordinate just below zero, or infinitely far below, that the checks let
pass; it lets pass a coordinate, or a row, that is not a number. -/
theorem checks_ne_isFeasible :
    let opposed : Problem Float := ⟨⟨[1, 1], .maximize⟩, [⟨[1e308, -1e308], .le, 4⟩]⟩
    let both := fun (p : Problem Float) (q : Point Float) =>
      (isFeasible p q.coords, (p.checksAt Scalar.defaultTolerance q).all (·.satisfied))
    halfPlaneProblem.validate = .ok () ∧ opposed.validate = .ok () ∧
      both halfPlaneProblem ⟨-1e-10, 0⟩ = (false, true) ∧
      both halfPlaneProblem ⟨Float.ofBits 0xFFF0000000000000, 0⟩ = (false, true) ∧
      both halfPlaneProblem ⟨Float.ofBits 0x7FF8000000000000, 0⟩ = (true, false) ∧
      both opposed ⟨10, 10⟩ = (true, false) := by
  decide +kernel

end CommandLine

end LinearProgram
