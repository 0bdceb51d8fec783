import LinearProgram.Proofs.Correctness

/-! # Agreement of the two disciplines

Without artificial columns, and whenever the penalty is rechecked, both disciplines run the same
stages. Otherwise exact solves agree because both are correct.
-/

namespace LinearProgram

namespace Leg

end Leg

namespace SimplexSettings

variable {s : SimplexSettings ℚ} {p : Problem ℚ} {used : ℕ}

section NoArtificials

variable (hcount : p.standardForm.count .artificial = 0)

include hcount

end NoArtificials

end SimplexSettings

/-- Two correct outcomes have one status. -/
theorem Outcome.IsCorrect.status_eq {o o' : Outcome ℚ} {p : Problem ℚ} (h : o.IsCorrect p)
    (h' : o'.IsCorrect p) (hlim : o.status ≠ .iterationLimit)
    (hlim' : o'.status ≠ .iterationLimit) : o.status = o'.status := by
  cases ho : o.status <;> cases ho' : o'.status
  all_goals first
    | rfl
    | exact absurd ho hlim
    | exact absurd ho' hlim'
    | exact absurd (h'.infeasible ho') (h.optimal ho).not_infeasible
    | exact absurd (h'.unbounded ho') (h.optimal ho).not_unbounded
    | exact absurd (h.infeasible ho) (h'.optimal ho').not_infeasible
    | exact absurd (h.infeasible ho) (h'.unbounded ho').not_infeasible
    | exact absurd (h.unbounded ho) (h'.optimal ho').not_unbounded
    | exact absurd (h'.infeasible ho') (h.unbounded ho).not_infeasible

namespace SimplexSettings

variable {s : SimplexSettings ℚ} {p : Problem ℚ}

/-- The optimal value is the objective at the assignment, and there is one for an optimum only. -/
theorem optimalValue_outcome : (s.outcome p).optimalValue =
    if (s.outcome p).status = .optimal then some (p.objective.evaluate (s.outcome p).assignment)
    else none := by
  have hleg : ∀ leg : Leg ℚ, (leg.outcome p).optimalValue = if (leg.outcome p).status = .optimal
      then some (p.objective.evaluate (leg.outcome p).assignment) else none := by
    intro leg
    rw [Leg.outcome]
    split <;> rfl
  rw [outcome]
  split
  · rw [bothPhasesOutcome]
    split
    · next hstatus =>
      rw [if_neg]
      · rfl
      · rintro rfl
        rcases eq_of_phaseOneStatus hstatus with h | h <;> cases h
    · exact hleg _
  · exact hleg _

end SimplexSettings

end LinearProgram
