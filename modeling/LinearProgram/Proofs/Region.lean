import LinearProgram.Proofs.Selection
import LinearProgram.Proofs.Validation

/-! # The feasible region

What a problem means, apart from any way to solve it: its points, its optima, and when it is
unbounded or infeasible. A point that misses every bound by at most a tolerance still passes the
program's own test.
-/

namespace LinearProgram

namespace Relation

/-- The relation of two numbers, missed by at most an error. -/
def Within (error : ℚ) : Relation → ℚ → ℚ → Prop
  | le, lhs, rhs => lhs ≤ rhs + error
  | ge, lhs, rhs => rhs - error ≤ lhs
  | eq, lhs, rhs => |lhs - rhs| ≤ error

/-- The relation of two numbers. -/
def Exactly : Relation → ℚ → ℚ → Prop
  | le, lhs, rhs => lhs ≤ rhs
  | ge, lhs, rhs => rhs ≤ lhs
  | eq, lhs, rhs => lhs = rhs

instance (relation : Relation) (lhs rhs : ℚ) : Decidable (relation.Exactly lhs rhs) :=
  match relation with
  | le => inferInstanceAs (Decidable (lhs ≤ rhs))
  | ge => inferInstanceAs (Decidable (rhs ≤ lhs))
  | eq => inferInstanceAs (Decidable (lhs = rhs))

variable {relation : Relation} {lhs rhs error tolerance : ℚ}

theorem within_zero : relation.Within 0 lhs rhs ↔ relation.Exactly lhs rhs := by
  cases relation with
  | le => rw [Within, Exactly, add_zero]
  | ge => rw [Within, Exactly, sub_zero]
  | eq => rw [Within, Exactly, abs_nonpos_iff, sub_eq_zero]

theorem within_flipped : relation.flipped.Within error (-lhs) (-rhs) ↔
    relation.Within error lhs rhs := by
  cases relation with
  | le =>
    simp only [flipped, Within]
    constructor <;> intro h <;> linarith
  | ge =>
    simp only [flipped, Within]
    constructor <;> intro h <;> linarith
  | eq =>
    simp only [flipped, Within]
    rw [neg_sub_neg, abs_sub_comm]

theorem holds_of_within (h0 : 0 ≤ error) (he : error ≤ tolerance)
    (h : relation.Within error lhs rhs) : relation.holds tolerance lhs rhs = true := by
  have hslack : error ≤ tolerance * Scalar.scale lhs rhs :=
    he.trans (le_mul_of_one_le_right (h0.trans he) (Scalar.one_le_scale lhs rhs))
  cases relation with
  | le =>
    simp only [holds, decide_eq_true_eq]
    exact h.trans (by linarith)
  | ge =>
    simp only [holds, decide_eq_true_eq]
    exact le_trans (by linarith) h
  | eq =>
    simp only [holds, Scalar.approxEq, Scalar.abs_eq, decide_eq_true_eq]
    exact h.trans hslack

end Relation

/-- The point satisfies the constraint. -/
def Constraint.Holds (c : Constraint ℚ) (x : List ℚ) : Prop := c.relation.Exactly (c.lhs x) c.bound

instance (c : Constraint ℚ) (x : List ℚ) : Decidable (c.Holds x) :=
  inferInstanceAs (Decidable (c.relation.Exactly _ _))

namespace Problem

/-- A point of the feasible region: one non-negative value per variable, satisfying every
constraint. -/
structure Feasible (p : Problem ℚ) (x : List ℚ) : Prop where
  length_eq : x.length = p.variableCount
  nonneg : ∀ v ∈ x, 0 ≤ v
  holds : ∀ c ∈ p.constraints, c.Holds x

/-- No point of the feasible region is strictly better than this one. -/
structure Optimal (p : Problem ℚ) (x : List ℚ) : Prop extends p.Feasible x where
  best : ∀ y, p.Feasible y → ¬ p.objective.improves (p.objective.evaluate y)
    (p.objective.evaluate x) = true

/-- Some point of the feasible region is better than any given value. -/
def Unbounded (p : Problem ℚ) : Prop :=
  ∀ bound, ∃ x, p.Feasible x ∧ p.objective.improves (p.objective.evaluate x) bound = true

def Infeasible (p : Problem ℚ) : Prop := ∀ x, ¬ p.Feasible x

variable {p : Problem ℚ} {x y : List ℚ}

instance (p : Problem ℚ) (x : List ℚ) : Decidable (p.Feasible x) :=
  decidable_of_iff (x.length = p.variableCount ∧ (∀ v ∈ x, 0 ≤ v) ∧ ∀ c ∈ p.constraints, c.Holds x)
    ⟨fun h => ⟨h.1, h.2.1, h.2.2⟩, fun h => ⟨h.1, h.2, h.3⟩⟩

/-- All optima have one value. -/
theorem Optimal.evaluate_eq (hx : p.Optimal x) (hy : p.Optimal y) :
    p.objective.evaluate x = p.objective.evaluate y := by
  have hxy := hx.best y hy.toFeasible
  have hyx := hy.best x hx.toFeasible
  rw [Objective.improves_iff, not_lt] at hxy hyx
  have hne : p.objective.sense.sign ≠ 0 := by cases p.objective.sense <;> simp [Sense.sign]
  exact mul_left_cancel₀ hne (le_antisymm hyx hxy)

theorem Optimal.not_infeasible (hx : p.Optimal x) : ¬ p.Infeasible := fun h => h x hx.toFeasible

theorem Optimal.not_unbounded (hx : p.Optimal x) : ¬ p.Unbounded := fun h => by
  obtain ⟨y, hy, himp⟩ := h (p.objective.evaluate x)
  exact hx.best y hy himp

theorem Unbounded.not_infeasible (h : p.Unbounded) : ¬ p.Infeasible := fun hinf => by
  obtain ⟨x, hx, -⟩ := h 0
  exact hinf x hx

end Problem

end LinearProgram
