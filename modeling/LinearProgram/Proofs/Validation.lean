import LinearProgram.Parsed
import LinearProgram.Problem.Validation
import Mathlib.Data.List.Basic

/-! # What is accepted

A problem is accepted if it has an objective and constraints, all rows have the length of the
objective, and all numbers are finite. The order of the constraints does not matter.
-/

namespace LinearProgram

variable {α : Type} [Scalar α] {p : Problem α} {c : Constraint α} {cs : List (Constraint α)}
  {n number : ℕ}

namespace Constraint

theorem validate_eq_ok_iff : c.validate n number = .ok () ↔ c.coefficients.length = n ∧
    (∀ a ∈ c.coefficients, Scalar.isFinite a = true) ∧ Scalar.isFinite c.bound = true := by
  rw [validate, ← List.all_eq_true, ← Bool.and_eq_true]
  split
  · next hne => simp [hne]
  · next heq =>
    rw [not_not] at heq
    split
    · next hfinite => simp only [heq, hfinite, and_self]
    · next hfinite => simp [hfinite]

theorem validateFrom_eq_ok_iff : validateFrom n number cs = .ok () ↔
    ∀ c ∈ cs, c.coefficients.length = n ∧
      (∀ a ∈ c.coefficients, Scalar.isFinite a = true) ∧ Scalar.isFinite c.bound = true := by
  induction cs generalizing number with
  | nil => exact ⟨fun _ => List.forall_mem_nil _, fun _ => rfl⟩
  | cons c cs ih =>
    rw [validateFrom, bind_eq_ok, List.forall_mem_cons, ← ih, ← validate_eq_ok_iff]
    exact ⟨fun ⟨_, hc, hcs⟩ => ⟨hc, hcs⟩, fun ⟨hc, hcs⟩ => ⟨(), hc, hcs⟩⟩

end Constraint

namespace Problem

theorem validate_eq_ok_iff : p.validate = .ok () ↔ p.variableCount ≠ 0 ∧
    (∀ a ∈ p.objective.coefficients, Scalar.isFinite a = true) ∧ p.constraints ≠ [] ∧
    ∀ c ∈ p.constraints, c.coefficients.length = p.variableCount ∧
      (∀ a ∈ c.coefficients, Scalar.isFinite a = true) ∧ Scalar.isFinite c.bound = true := by
  rw [validate, ← List.all_eq_true, ← List.isEmpty_eq_false_iff,
    ← @Constraint.validateFrom_eq_ok_iff _ _ _ _ 1]
  by_cases hcount : p.variableCount = 0
  · simp [hcount]
  · cases p.objective.coefficients.all Scalar.isFinite <;> cases p.constraints.isEmpty <;>
      simp [hcount]

/-- A problem that is accepted has rows of one length, and its numbers are finite. -/
theorem of_validate (h : p.validate = .ok ()) :
    (∀ a ∈ p.objective.coefficients, Scalar.isFinite a = true) ∧
      ∀ c ∈ p.constraints, c.coefficients.length = p.variableCount ∧
        (∀ a ∈ c.coefficients, Scalar.isFinite a = true) ∧ Scalar.isFinite c.bound = true := by
  obtain ⟨-, hobjective, -, hconstraints⟩ := validate_eq_ok_iff.mp h
  exact ⟨hobjective, hconstraints⟩

theorem length_of_validate (h : p.validate = .ok ()) :
    ∀ c ∈ p.constraints, c.coefficients.length = p.variableCount :=
  fun c hc => ((of_validate h).2 c hc).1

theorem nonempty_of_validate (h : p.validate = .ok ()) :
    p.variableCount ≠ 0 ∧ p.constraints ≠ [] := by
  obtain ⟨hcount, -, hnonempty, -⟩ := validate_eq_ok_iff.mp h
  exact ⟨hcount, hnonempty⟩

end Problem

end LinearProgram
