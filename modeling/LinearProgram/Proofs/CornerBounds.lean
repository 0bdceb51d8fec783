import LinearProgram.Proofs.CornerTrace
import LinearProgram.Proofs.Double.Bounds
import LinearProgram.Proofs.PointCheck

/-! # Bounds of corners

Products of a few numbers of moderate size are doubles. If the numbers of a problem are neither too
large nor, as coefficients of a row, too close to zero, then no coordinate of a crossing, no left
side and no value of the objective leaves the doubles: a determinant that is not small beside its
products is not small.
-/

namespace LinearProgram

open Double

/-- The numbers of a problem are at most `1e50`, and a coefficient of a row that is not zero is at
least `1e-50`. -/
structure Problem.IsModerate (p : Problem Float) : Prop where
  objective : ∀ x ∈ p.objective.coefficients, |value x| ≤ 10 ^ 50
  bound : ∀ c ∈ p.constraints, |value c.bound| ≤ 10 ^ 50
  coefficient : ∀ c ∈ p.constraints, ∀ x ∈ c.coefficients,
    value x = 0 ∨ 10 ^ (-50 : ℤ) ≤ |value x| ∧ |value x| ≤ 10 ^ 50

/-- The numbers of a line are below `2 ^ 167`, its coefficients zero or at least `2 ^ -167`. -/
structure Line.IsModerate (l : Line Float) : Prop where
  a : Within 167 l.a
  b : Within 167 l.b
  c : Within 167 l.c
  a_low : value l.a = 0 ∨ 2 ^ (-167 : ℤ) ≤ |value l.a|
  b_low : value l.b = 0 ∨ 2 ^ (-167 : ℤ) ≤ |value l.b|

namespace Scalar

variable {a b x y : Float} {i j : ℕ}

theorem within_defaultTolerance : Within 0 (defaultTolerance : Float) :=
  ⟨by decide +kernel, by decide +kernel⟩

theorem le_value_defaultTolerance : 2 ^ (-30 : ℤ) ≤ value (defaultTolerance : Float) := by
  decide +kernel

section Slack

variable {size : Float} {k : ℕ} (hsize : Within k size) (hk : k ≤ 1023)

include hsize hk

theorem rounds_slack : Within k (defaultTolerance * size) ∧
    Rounds (value (defaultTolerance : Float) * value size) (defaultTolerance * size) := by
  have hwithin := within_defaultTolerance.mul hsize (by omega)
  rw [Nat.zero_add] at hwithin
  exact ⟨hwithin, rounds_mul within_defaultTolerance.1 hsize.1⟩

theorem slack_nonneg (h0 : 0 ≤ value size) : 0 ≤ value (defaultTolerance * size) := by
  obtain ⟨hwithin, hround⟩ := rounds_slack hsize hk
  have htolerance := (two_zpow_pos _).le.trans le_value_defaultTolerance
  exact hround.nonneg hwithin.1 (mul_nonneg htolerance h0)

/-- The tolerance times a size that is not small is not small. -/
theorem le_slack (hlow : 2 ^ (-334 : ℤ) ≤ value size) :
    2 ^ (-364 : ℤ) ≤ value (defaultTolerance * size) := by
  obtain ⟨hwithin, hround⟩ := rounds_slack hsize hk
  have h0 := slack_nonneg hsize hk ((two_zpow_pos _).le.trans hlow)
  have hproduct : (2 : ℚ) ^ (-364 : ℤ) ≤ |value (defaultTolerance : Float) * value size| := by
    have hpower : (2 : ℚ) ^ (-364 : ℤ) = 2 ^ (-30 : ℤ) * 2 ^ (-334 : ℤ) := by
      rw [← zpow_add₀ two_ne_zero]
      norm_num
    have hle := mul_le_mul le_value_defaultTolerance hlow (two_zpow_pos _).le
      ((two_zpow_pos _).le.trans le_value_defaultTolerance)
    rw [hpower]
    exact hle.trans (le_abs_self _)
  have hleast := hround.le_abs hwithin.1 hproduct (by norm_num) (by norm_num)
  rwa [abs_of_nonneg h0] at hleast

/-- What is not small beside a size exceeds the tolerance times the size. -/
theorem slack_lt {x : Float} (hx : x.isFinite = true) (h : ¬ abs x ≤ defaultTolerance * size) :
    value (defaultTolerance * size) < |value x| := by
  obtain ⟨hwithin, -⟩ := rounds_slack hsize hk
  obtain ⟨habs, hvalue⟩ := isFinite_abs hx
  have hlt := (lt_iff.mp ((not_le_iff (isNaN_of_isFinite habs)
    (isNaN_of_isFinite hwithin.1)).mp h)).2.2
  rwa [position_of_isFinite hwithin.1, position_of_isFinite habs, mark_lt_mark, hvalue] at hlt

end Slack

theorem within_dot (ha : Within i a) (hb : Within i b) (hx : Within j x) (hy : Within j y)
    (h : i + j + 2 ≤ 1023) : Within (i + j + 2) (dot [a, b] [x, y]) := by
  have hzero : Within 0 (-0 : Float) := ⟨by decide +kernel, by decide +kernel⟩
  have hfirst := hzero.add (ha.mul hx (by omega)) (by omega)
  have hsum := hfirst.add (hb.mul hy (by omega)) (by omega)
  exact hsum.mono (by omega)

end Scalar

namespace Line

variable {l m : Line Float} {q : Point Float}

/-- A product that is not zero is not small. -/
theorem le_abs_mul {x y : Float} (hx : Within 167 x) (hy : Within 167 y)
    (hxlow : value x = 0 ∨ 2 ^ (-167 : ℤ) ≤ |value x|)
    (hylow : value y = 0 ∨ 2 ^ (-167 : ℤ) ≤ |value y|) :
    value (x * y) = 0 ∨ 2 ^ (-334 : ℤ) ≤ |value (x * y)| := by
  have hround := rounds_mul hx.1 hy.1
  have hfinite := (hx.mul hy (by norm_num)).1
  by_cases h0 : value x * value y = 0
  · rw [h0] at hround
    exact .inl (hround.eq_value isFinite_zero value_zero).2
  · obtain ⟨hx0, hy0⟩ := mul_ne_zero_iff.mp h0
    have hlow : (2 : ℚ) ^ (-334 : ℤ) ≤ |value x * value y| := by
      have hpower : (2 : ℚ) ^ (-334 : ℤ) = 2 ^ (-167 : ℤ) * 2 ^ (-167 : ℤ) := by
        rw [← zpow_add₀ two_ne_zero]
        norm_num
      rw [hpower, abs_mul]
      exact mul_le_mul (hxlow.resolve_left hx0) (hylow.resolve_left hy0) (two_zpow_pos _).le
        (abs_nonneg _)
    exact .inr (hround.le_abs hfinite hlow (by norm_num) (by norm_num))

variable (hl : l.IsModerate) (hm : m.IsModerate)

include hl hm

/-- The larger of the products of a determinant. -/
def determinantSize (l m : Line Float) : Float :=
  Scalar.larger (Scalar.abs (l.a * m.b)) (Scalar.abs (m.a * l.b))

theorem le_value_determinantSize : |value (l.a * m.b)| ≤ value (determinantSize l m) ∧
    |value (m.a * l.b)| ≤ value (determinantSize l m) := by
  obtain ⟨hfirst, hfirstValue⟩ := isFinite_abs (hl.a.mul hm.b (by norm_num)).1
  obtain ⟨hsecond, hsecondValue⟩ := isFinite_abs (hm.a.mul hl.b (by norm_num)).1
  have hle := le_value_larger hfirst hsecond
  rwa [hfirstValue, hsecondValue] at hle

theorem within_determinantSize : Within 334 (determinantSize l m) :=
  (hl.a.mul hm.b (by norm_num)).abs.larger (hm.a.mul hl.b (by norm_num)).abs

/-- If the products are both zero, the determinant is. -/
theorem determinant_or_le_determinantSize : value (l.a * m.b - m.a * l.b) = 0 ∨
    2 ^ (-334 : ℤ) ≤ value (determinantSize l m) := by
  obtain ⟨hle, hle'⟩ := le_value_determinantSize hl hm
  rcases le_abs_mul hl.a hm.b hl.a_low hm.b_low with hzero | hlow
  · rcases le_abs_mul hm.a hl.b hm.a_low hl.b_low with hzero' | hlow'
    · have hround := rounds_sub (hl.a.mul hm.b (by norm_num)).1 (hm.a.mul hl.b (by norm_num)).1
      rw [hzero, hzero', sub_zero] at hround
      exact .inl (hround.eq_value isFinite_zero value_zero).2
    · exact .inr (hlow'.trans hle')
  · exact .inr (hlow.trans hle)

/-- The determinant of lines that cross is not small. -/
theorem le_abs_determinant
    (h : ¬ Scalar.abs (l.a * m.b - m.a * l.b) ≤ Scalar.defaultTolerance * determinantSize l m) :
    Within 335 (l.a * m.b - m.a * l.b) ∧ 2 ^ (-364 : ℤ) ≤ |value (l.a * m.b - m.a * l.b)| := by
  have hdet := (hl.a.mul hm.b (by norm_num)).sub (hm.a.mul hl.b (by norm_num)) (by norm_num)
  have hscale := within_determinantSize hl hm
  have hlt := Scalar.slack_lt hscale (by norm_num) hdet.1 h
  refine ⟨hdet, ?_⟩
  rcases determinant_or_le_determinantSize hl hm with hzero | hlow
  · have h0 := (abs_nonneg _).trans (le_value_determinantSize hl hm).1
    rw [hzero, abs_zero] at hlt
    exact absurd hlt (Scalar.slack_nonneg hscale (by norm_num) h0).not_gt
  · exact (Scalar.le_slack hscale (by norm_num) hlow).trans hlt.le

/-- Where moderate lines cross. -/
theorem IsModerate.within_intersection (h : l.intersection Scalar.defaultTolerance m = some q) :
    Within 699 q.x ∧ Within 699 q.y := by
  rw [intersection] at h
  split at h
  · cases h
  · next hdet =>
    obtain ⟨hwithin, hlow⟩ := le_abs_determinant hl hm hdet
    obtain rfl := Option.some.inj h
    have hx := (hl.c.mul hm.b (by norm_num)).sub (hm.c.mul hl.b (by norm_num)) (by norm_num)
    have hy := (hl.a.mul hm.c (by norm_num)).sub (hm.a.mul hl.c (by norm_num)) (by norm_num)
    exact ⟨(hx.div hwithin.1 hlow (by norm_num)).unsignedZero,
      (hy.div hwithin.1 hlow (by norm_num)).unsignedZero⟩

end Line

namespace Problem

variable {p : Problem Float} {q : Point Float}

namespace IsModerate

variable (hp : p.IsModerate) (hv : p.validate = .ok ()) (h2 : p.variableCount = 2)

include hp hv

/-- No number of the problem reaches `2 ^ 167`. -/
theorem within : (∀ x ∈ p.objective.coefficients, Within 167 x) ∧
    ∀ c ∈ p.constraints, Within 167 c.bound ∧ ∀ x ∈ c.coefficients, Within 167 x := by
  have hsize : (10 : ℚ) ^ 50 ≤ 2 ^ 167 := by norm_num
  obtain ⟨hobjective, hrows⟩ := of_validate hv
  refine ⟨fun x hx => ?_, fun c hc => ?_⟩
  · exact ⟨(Scalar.isFinite_iff x).mp (hobjective x hx), (hp.objective x hx).trans hsize⟩
  · obtain ⟨-, hcoefficients, hbound⟩ := hrows c hc
    refine ⟨⟨(Scalar.isFinite_iff _).mp hbound, (hp.bound c hc).trans hsize⟩, fun x hx => ?_⟩
    refine ⟨(Scalar.isFinite_iff x).mp (hcoefficients x hx), ?_⟩
    rcases hp.coefficient c hc x hx with hzero | ⟨-, hle⟩
    · rw [hzero, abs_zero]
      positivity
    · exact hle.trans hsize

include h2

/-- The coefficients of a row as a pair. -/
theorem exists_coefficients {c : Constraint Float} (hc : c ∈ p.constraints) :
    ∃ a b, c.coefficients = [a, b] ∧ Within 167 a ∧ Within 167 b := by
  obtain ⟨-, hwithin⟩ := (hp.within hv).2 c hc
  obtain ⟨a, b, hab⟩ := List.length_eq_two.mp (((of_validate hv).2 c hc).1.trans h2)
  rw [hab] at hwithin
  exact ⟨a, b, hab, hwithin a (by simp), hwithin b (by simp)⟩

theorem line {c : Constraint Float} (hc : c ∈ p.constraints) (label : String) :
    (c.line label).IsModerate := by
  obtain ⟨a, b, hab, ha, hb⟩ := hp.exists_coefficients hv h2 hc
  have hlow : ∀ x ∈ c.coefficients, value x = 0 ∨ 2 ^ (-167 : ℤ) ≤ |value x| := by
    intro x hx
    have hsize : (2 : ℚ) ^ (-167 : ℤ) ≤ 10 ^ (-50 : ℤ) := by norm_num
    exact (hp.coefficient c hc x hx).imp_right fun h => hsize.trans h.1
  have hline : c.line label = ⟨label, a, b, c.bound⟩ := by
    rw [Constraint.line, hab]
    rfl
  rw [hab] at hlow
  rw [hline]
  exact ⟨ha, hb, ((hp.within hv).2 c hc).1, hlow a (by simp), hlow b (by simp)⟩

theorem boundaryLines (tolerance : Float) : ∀ l ∈ p.boundaryLines tolerance, l.IsModerate := by
  rw [Problem.boundaryLines, List.forall_mem_append]
  constructor
  · intro l hl
    obtain ⟨⟨c, i⟩, hc, heq⟩ := List.mem_filterMap.mp hl
    obtain ⟨-, rfl⟩ : c.isDegenerate tolerance = false ∧ c.line (rowLabel i) = l := by
      simpa using heq
    exact hp.line hv h2 (List.mem_of_getElem? (List.mem_zipIdx_iff_getElem?.mp hc)) _
  · have hzero : Within 167 (0 : Float) := ⟨by decide +kernel, by decide +kernel⟩
    have hone : Within 167 (1 : Float) := ⟨by decide +kernel, by decide +kernel⟩
    have hlow : (2 : ℚ) ^ (-167 : ℤ) ≤ |value (1 : Float)| := by decide +kernel
    simp only [axes, List.forall_mem_cons]
    exact ⟨⟨hone, hzero, hzero, .inr hlow, .inl value_zero⟩,
      ⟨hzero, hone, hzero, .inl value_zero, .inr hlow⟩, List.forall_mem_nil _⟩

/-- Where boundary lines cross. -/
theorem within_crossing (h : q ∈ (crossings Scalar.defaultTolerance
    (p.boundaryLines Scalar.defaultTolerance)).filterMap (·.point)) :
    Within 699 q.x ∧ Within 699 q.y := by
  obtain ⟨crossing, hcrossing, hq⟩ := List.mem_filterMap.mp h
  obtain ⟨⟨l, m⟩, hlm, rfl⟩ := List.mem_map.mp hcrossing
  obtain ⟨hl, hm⟩ := mem_of_mem_pairs hlm
  have hlines := hp.boundaryLines hv h2 Scalar.defaultTolerance
  exact (hlines l hl).within_intersection (hlines m hm) hq

variable (hq : Within 699 q.x ∧ Within 699 q.y)

include hq

/-- Left sides where boundary lines cross. -/
theorem within_lhs {c : Constraint Float} (hc : c ∈ p.constraints) :
    Within 868 (c.lhs q.coords) := by
  obtain ⟨a, b, hab, ha, hb⟩ := hp.exists_coefficients hv h2 hc
  rw [Constraint.lhs, hab]
  exact (Scalar.within_dot ha hb hq.1 hq.2 (by norm_num)).mono (by norm_num)

/-- Values of the objective where boundary lines cross. -/
theorem within_evaluate : Within 868 (p.objective.evaluate q.coords) := by
  obtain ⟨hwithin, -⟩ := hp.within hv
  obtain ⟨a, b, hab⟩ := List.length_eq_two.mp h2
  rw [hab] at hwithin
  rw [Objective.evaluate, hab]
  have hdot := Scalar.within_dot (hwithin a (by simp)) (hwithin b (by simp)) hq.1 hq.2 (by norm_num)
  exact hdot.mono (by norm_num)

end IsModerate

end Problem

end LinearProgram
