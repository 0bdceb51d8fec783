import LinearProgram.Proofs.Row
import LinearProgram.Proofs.Selection
import LinearProgram.Proofs.Stage

/-! # Mirrored stages

A stage that makes an objective small runs like one that makes the negated objective large. All
tableaus have the same constraint rows and negated objective rows, since every test of an objective
entry looks at its magnitude or at its gain.
-/

namespace LinearProgram

theorem Scalar.abs_neg_eq (x : ℚ) : Scalar.abs (-x) = Scalar.abs x := by
  rw [abs_eq, abs_eq, abs_neg]

namespace Sense

def opposite : Sense → Sense
  | maximize => minimize
  | minimize => maximize

theorem sign_opposite (sense : Sense) : sense.opposite.sign = -sense.sign := by
  cases sense <;> simp [opposite, sign]

end Sense

namespace Row

/-- The same equation with both sides multiplied by `-1`. -/
def negated (r : Row ℚ) : Row ℚ := r.map (-·)

theorem entry_negated (r : Row ℚ) (j : ℕ) : r.negated.entry j = -r.entry j :=
  entry_map neg_zero r j

theorem values_negated (r : Row ℚ) : r.negated.values = r.values.map (-·) := by
  simp [values, negated, map]

theorem subtract_negated (r : Row ℚ) (f : ℚ) (s : Row ℚ) :
    r.negated.subtract (-f) s = (r.subtract f s).negated := by
  have hneg : ∀ x y : ℚ, -x - -f * y = -(x - f * y) := fun x y => by ring
  simp only [subtract, negated, map, zipWith, List.zipWith_map_left, List.map_zipWith, hneg]

theorem snap_neg (tolerance x : ℚ) : snap tolerance (-x) = -snap tolerance x := by
  rw [snap, snap, Scalar.abs_neg_eq]
  split
  · exact neg_zero.symm
  · rfl

theorem eliminate_negated (tolerance : ℚ) (r s : Row ℚ) (col : ℕ) :
    r.negated.eliminate tolerance s col = (r.eliminate tolerance s col).negated := by
  by_cases hz : r.entry col = 0
  · rw [eliminate_of_entry_eq_zero tolerance hz,
      eliminate_of_entry_eq_zero tolerance (by rw [entry_negated, hz, neg_zero])]
  · have hne : r.negated.entry col ≠ 0 := by rwa [entry_negated, neg_ne_zero]
    rw [eliminate, eliminate, if_neg (beq_iff_eq.not.mpr hz), if_neg (beq_iff_eq.not.mpr hne),
      entry_negated, subtract_negated]
    simp only [negated, map, set, List.map_map, List.map_set, Function.comp_def, snap_neg, neg_zero]

end Row

namespace Tableau

/-- The tableau of the negated objective. -/
def mirrored (t : Tableau ℚ) : Tableau ℚ := { t with objective := t.objective.negated }

theorem reducedCost_mirrored (t : Tableau ℚ) (col : ℕ) :
    t.mirrored.reducedCost col = -t.reducedCost col :=
  t.objective.entry_negated col

theorem priceOutRow_negated (tolerance : ℚ) (objective : Row ℚ) (r : BasicRow ℚ) :
    priceOutRow tolerance objective.negated r = (priceOutRow tolerance objective r).negated := by
  simp only [priceOutRow, Row.entry_negated, Scalar.abs_neg_eq]
  split
  · exact Row.subtract_negated _ _ _
  · rfl

theorem setObjective_negated (tolerance : ℚ) (costs : List ℚ) (t : Tableau ℚ) :
    t.setObjective tolerance (costs.map (-·)) = (t.setObjective tolerance costs).mirrored := by
  have hrows : t.rows.foldl (priceOutRow tolerance) (Row.negated ⟨costs.map (-·), 0⟩) =
      (t.rows.foldl (priceOutRow tolerance) ⟨costs.map (-·), 0⟩).negated :=
    List.foldl_hom Row.negated (priceOutRow_negated tolerance)
  exact congrArg (Tableau.mk t.columns t.rows) hrows

theorem pivot_mirrored (tolerance : ℚ) (t : Tableau ℚ) (row col : ℕ) :
    t.mirrored.pivot tolerance row col = (t.pivot tolerance row col).mirrored := by
  have hrows : t.mirrored.rows = t.rows := rfl
  rw [pivot, pivot, hrows]
  cases t.rows[row]? with
  | none => rfl
  | some r =>
    have hobjective := t.objective.eliminate_negated tolerance (r.scaleTo col) col
    exact congrArg (Tableau.mk t.columns _) hobjective

theorem gain_mirrored (sense : Sense) (t : Tableau ℚ) (col : ℕ) :
    t.mirrored.gain sense.opposite col = t.gain sense col := by
  rw [gain_eq, gain_eq, reducedCost_mirrored, Sense.sign_opposite, neg_mul_neg]

theorem enteringColumn_mirrored (tolerance : ℚ) (sense : Sense) (allowed : ℕ → Bool)
    (t : Tableau ℚ) : t.mirrored.enteringColumn tolerance sense.opposite allowed =
      t.enteringColumn tolerance sense allowed := by
  simp only [enteringColumn, gain_mirrored]
  rfl

theorem hasTie_mirrored (tolerance : ℚ) (t : Tableau ℚ) :
    t.mirrored.hasTie tolerance = t.hasTie tolerance := by
  simp only [hasTie, reducedCost_mirrored, Scalar.abs_neg_eq]
  rfl

end Tableau

def Goal.opposite (goal : Goal ℚ) : Goal ℚ := { goal with sense := goal.sense.opposite }

def Pivot.mirrored (d : Pivot ℚ) : Pivot ℚ :=
  { d with before := d.before.mirrored, after := d.after.mirrored }

def Stage.mirrored (stage : Stage ℚ) : Stage ℚ :=
  { stage with pivots := stage.pivots.map Pivot.mirrored, final := stage.final.mirrored }

theorem Goal.entering?_mirrored (goal : Goal ℚ) (t : Tableau ℚ) :
    goal.opposite.entering? t.mirrored = goal.entering? t :=
  t.enteringColumn_mirrored goal.tolerance goal.sense goal.allowed

/-- The same columns enter and the same rows are left. -/
theorem Goal.run_mirrored (goal : Goal ℚ) (budget : ℕ) (t : Tableau ℚ) :
    goal.opposite.run budget t.mirrored = (goal.run budget t).mirrored := by
  refine run_induction (motive := fun budget t stage =>
    goal.opposite.run budget t.mirrored = stage.mirrored) ?_ ?_ ?_ ?_ budget t
  · intro budget t hcol
    rw [run_of_none ((goal.entering?_mirrored t).trans hcol)]
    rfl
  · intro t column hcol
    rw [run_zero_of_some ((goal.entering?_mirrored t).trans hcol)]
    rfl
  · intro budget t column hcol hrow
    rw [run_succ_of_none ((goal.entering?_mirrored t).trans hcol) hrow]
    rfl
  · rintro budget ⟨before, column, ratios, row, after⟩ ⟨hcol, hratios, hrow, hafter⟩ ih
    simp only at hcol hratios hrow hafter ih ⊢
    subst hratios hafter
    have hafter : before.mirrored.pivot goal.opposite.tolerance row column =
        (before.pivot goal.tolerance row column).mirrored := before.pivot_mirrored _ row column
    rw [run_succ_of_some ((goal.entering?_mirrored before).trans hcol) hrow, hafter, ih]
    rfl

namespace Leg

/-- The stage that makes the negated objective large where the other makes its objective small, or
the other way round. -/
def opposite (leg : Leg ℚ) : Leg ℚ :=
  { leg with goal := leg.goal.opposite, costs := leg.costs.map (-·) }

theorem start_opposite (leg : Leg ℚ) : leg.opposite.start = leg.start.mirrored :=
  leg.loaded.setObjective_negated leg.goal.tolerance leg.costs

theorem stage_opposite (leg : Leg ℚ) : leg.opposite.stage = leg.stage.mirrored := by
  rw [stage, start_opposite]
  exact leg.goal.run_mirrored leg.budget leg.start

end Leg

end LinearProgram
