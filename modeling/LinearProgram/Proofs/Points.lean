import LinearProgram.Proofs.Region
import LinearProgram.Proofs.StandardForm

/-! # The standard form states the problem

The non-negative solutions of the standard form without artificial parts are the feasible points,
each with its slacks and surpluses. Artificial parts up to an error miss the constraints by at most
that error.
-/

namespace LinearProgram

namespace Constraint

variable {c : Constraint ℚ}

theorem lhs_flipped (c : Constraint ℚ) (x : List ℚ) : c.flipped.lhs x = -c.lhs x := by
  rw [lhs, lhs, dot_eq_combine, dot_eq_combine, combine, combine, ← Finset.sum_neg_distrib]
  refine Finset.sum_congr (by rw [flipped, List.length_map]) fun j _ => ?_
  have hj : c.flipped.coefficients.getD j 0 = -c.coefficients.getD j 0 := by
    have h := List.getD_map (l := c.coefficients) (d := 0) (n := j) (f := (-· : ℚ → ℚ))
    rwa [neg_zero] at h
  rw [hj, neg_mul]

theorem within_normalized {error : ℚ} {x : List ℚ} :
    c.normalized.relation.Within error (c.normalized.lhs x) c.normalized.bound ↔
      c.relation.Within error (c.lhs x) c.bound := by
  rw [normalized]
  split
  · rw [lhs_flipped]
    exact Relation.within_flipped
  · rfl

/-- Only the first coordinates of a solution matter to a constraint. -/
theorem lhs_map_range {n : ℕ} (h : c.coefficients.length = n) (z : ℕ → ℚ) :
    c.lhs ((List.range n).map z) = combine c.coefficients z := by
  rw [lhs, dot_eq_combine]
  refine combine_congr fun j hj => ?_
  rw [List.getD_eq_getElem?_getD, List.getElem?_map, List.getElem?_range (h ▸ hj)]
  rfl

end Constraint

namespace Problem

/-- The point that a solution of the standard form stands for. -/
def pointOf (p : Problem ℚ) (z : ℕ → ℚ) : List ℚ := (List.range p.variableCount).map z

/-- A point with what its constraints leave as slacks and surpluses, and no artificial parts. -/
def extend (p : Problem ℚ) (x : List ℚ) (j : ℕ) : ℚ :=
  (x ++ ownValues .slack (fun c => c.bound - c.lhs x) p.normalizedRows ++
    ownValues .surplus (fun c => c.lhs x - c.bound) p.normalizedRows).getD j 0

variable {p : Problem ℚ} (hl : ∀ c ∈ p.constraints, c.coefficients.length = p.variableCount)

include hl

/-- A non-negative solution whose artificial parts are at most an error stands for a point that
misses every constraint by at most that error. -/
theorem within_pointOf {z : ℕ → ℚ} (hz : p.standardForm.Solves z) (hpos : ∀ j, 0 ≤ z j)
    {error : ℚ} (h0 : 0 ≤ error) (ha : ∀ j, p.standardForm.isArtificial j = true → z j ≤ error) :
    ∀ c ∈ p.constraints, c.relation.Within error (c.lhs (p.pointOf z)) c.bound := by
  intro c hc
  rw [← Constraint.within_normalized]
  obtain ⟨i, hi⟩ := List.mem_iff_getElem?.mp (List.mem_map_of_mem hc)
  have hrow := (getElem?_rows_standardForm p i).trans (congrArg _ hi)
  have hlen := length_of_mem_normalizedRows hl (List.mem_of_getElem? hi)
  have hsum : (p.standardRow (p.normalizedRows.take i) c.normalized).value z =
    c.normalized.bound := hz _ (List.mem_of_getElem? hrow)
  rw [value_standardRow hi hlen] at hsum
  have hart : c.normalized.relation.columns .artificial ≠ 0 →
      z (p.ownColumn .artificial i) ≤ error := fun hk =>
    ha _ ((isArtificial_iff rfl _).mpr
      ⟨Nat.le_add_right .., (ownColumn_lt hi hk).trans_eq (columnCount_eq rfl).symm⟩)
  have hslack := hpos (p.ownColumn .slack i)
  have hsurplus := hpos (p.ownColumn .surplus i)
  have hartificial := hpos (p.ownColumn .artificial i)
  rw [pointOf, Constraint.lhs_map_range hlen]
  generalize c.normalized = d at *
  obtain ⟨as, relation, bound⟩ := d
  cases relation with
  | le =>
    simp only [Relation.Within] at hsum ⊢
    linarith
  | ge =>
    have hart := hart (by simp [Relation.columns])
    simp only [Relation.Within] at hsum ⊢
    linarith
  | eq =>
    have hart := hart (by simp [Relation.columns])
    simp only [Relation.Within] at hsum ⊢
    rw [abs_le]
    constructor <;> linarith

omit hl in
theorem length_pointOf (p : Problem ℚ) (z : ℕ → ℚ) : (p.pointOf z).length = p.variableCount := by
  rw [pointOf, List.length_map, List.length_range]

/-- Without artificial parts the point is in the feasible region. -/
theorem feasible_pointOf {z : ℕ → ℚ} (hz : p.standardForm.Solves z) (hpos : ∀ j, 0 ≤ z j)
    (ha : ∀ j, p.standardForm.isArtificial j = true → z j = 0) : p.Feasible (p.pointOf z) := by
  refine ⟨p.length_pointOf z, fun v hv => ?_, fun c hc => ?_⟩
  · obtain ⟨j, -, rfl⟩ := List.mem_map.mp hv
    exact hpos j
  · exact Relation.within_zero.mp
      (within_pointOf hl hz hpos le_rfl (fun j hj => (ha j hj).le) c hc)

omit hl

theorem evaluate_pointOf (p : Problem ℚ) (z : ℕ → ℚ) :
    p.objective.evaluate (p.pointOf z) = combine p.objective.coefficients z :=
  Constraint.lhs_map_range (c := ⟨p.objective.coefficients, .eq, 0⟩) rfl z

variable {x : List ℚ} {i : ℕ} {c : Constraint ℚ}

theorem extend_of_lt (hx : x.length = p.variableCount) {j : ℕ} (hj : j < p.variableCount) :
    p.extend x j = x.getD j 0 := by
  rw [extend, List.append_assoc, List.getD_append _ _ _ _ (hx ▸ hj)]

theorem extend_slack (hx : x.length = p.variableCount) (hc : p.normalizedRows[i]? = some c)
    (hk : c.relation.columns .slack ≠ 0) :
    p.extend x (p.ownColumn .slack i) = c.bound - c.lhs x := by
  have hlt := columnsNeeded_take_lt_all hc hk
  rw [extend, ownColumn, firstColumn, List.getD_append _ _ _ _
      (by rw [List.length_append, length_ownValues, hx]; omega),
    List.getD_append_right _ _ _ _ (by omega), hx, Nat.add_sub_cancel_left, getD_ownValues hc hk]

theorem extend_surplus (hx : x.length = p.variableCount) (hc : p.normalizedRows[i]? = some c)
    (hk : c.relation.columns .surplus ≠ 0) :
    p.extend x (p.ownColumn .surplus i) = c.lhs x - c.bound := by
  have hlen : (x ++ ownValues .slack (fun c => c.bound - c.lhs x) p.normalizedRows).length =
      p.firstColumn .surplus := by rw [List.length_append, length_ownValues, hx, firstColumn]
  rw [extend, ownColumn, List.getD_append_right _ _ _ _ (by omega), hlen, Nat.add_sub_cancel_left,
    getD_ownValues hc hk]

theorem extend_artificial (hx : x.length = p.variableCount) {j : ℕ}
    (hj : p.standardForm.isArtificial j = true) : p.extend x j = 0 := by
  have h := ((isArtificial_iff rfl j).mp hj).1
  refine List.getD_eq_default _ _ ?_
  simp only [List.length_append, length_ownValues, hx]
  exact h

theorem exactly_of_feasible (hf : p.Feasible x) (hc : c ∈ p.normalizedRows) :
    c.relation.Exactly (c.lhs x) c.bound := by
  obtain ⟨d, hd, rfl⟩ := List.mem_map.mp hc
  rw [← Relation.within_zero, Constraint.within_normalized, Relation.within_zero]
  exact hf.holds d hd

theorem extend_nonneg (hf : p.Feasible x) (j : ℕ) : 0 ≤ p.extend x j := by
  have hall : ∀ v ∈ x ++ ownValues .slack (fun c => c.bound - c.lhs x) p.normalizedRows ++
      ownValues .surplus (fun c => c.lhs x - c.bound) p.normalizedRows, 0 ≤ v := by
    intro v hv
    simp only [List.mem_append, ownValues, List.mem_map, List.mem_filter] at hv
    rcases hv with (hv | ⟨c, ⟨hc, hk⟩, rfl⟩) | ⟨c, ⟨hc, hk⟩, rfl⟩
    · exact hf.nonneg v hv
    · have h := exactly_of_feasible hf hc
      obtain ⟨_, _ | _ | _, _⟩ := c <;> simp_all [Relation.columns, Relation.Exactly]
    · have h := exactly_of_feasible hf hc
      obtain ⟨_, _ | _ | _, _⟩ := c <;> simp_all [Relation.columns, Relation.Exactly]
  exact getD_of_forall (P := (0 ≤ ·)) le_rfl fun v hv => hall v (List.mem_of_getElem? hv)

include hl in
/-- A feasible point solves the standard form once it is extended. -/
theorem solves_extend (hf : p.Feasible x) : p.standardForm.Solves (p.extend x) := by
  intro r hr
  obtain ⟨i, hi⟩ := List.mem_iff_getElem?.mp hr
  rw [getElem?_rows_standardForm] at hi
  obtain ⟨c, hc, rfl⟩ := Option.map_eq_some_iff.mp hi
  have hlen := length_of_mem_normalizedRows hl (List.mem_of_getElem? hc)
  have hx := hf.length_eq
  have hexact := exactly_of_feasible hf (List.mem_of_getElem? hc)
  have hlhs : combine c.coefficients (p.extend x) = c.lhs x := by
    rw [Constraint.lhs, dot_eq_combine]
    exact combine_congr fun j hj => extend_of_lt hx (hlen ▸ hj)
  have hartificial : c.relation.columns .artificial ≠ 0 → p.extend x (p.ownColumn .artificial i) =
      0 := fun hk => extend_artificial hx ((isArtificial_iff rfl _).mpr
        ⟨Nat.le_add_right .., (ownColumn_lt hc hk).trans_eq (columnCount_eq rfl).symm⟩)
  have hslack := extend_slack hx hc
  have hsurplus := extend_surplus hx hc
  rw [Row.Holds, value_standardRow hc hlen, hlhs, standardRow]
  obtain ⟨as, relation, bound⟩ := c
  cases relation with
  | le =>
    have hslack := hslack (by simp [Relation.columns])
    simp only at hslack ⊢
    linarith
  | ge =>
    have hartificial := hartificial (by simp [Relation.columns])
    have hsurplus := hsurplus (by simp [Relation.columns])
    simp only at hartificial hsurplus ⊢
    linarith
  | eq =>
    have hartificial := hartificial (by simp [Relation.columns])
    simp only [Relation.Exactly] at hexact hartificial ⊢
    linarith

theorem pointOf_extend (hx : x.length = p.variableCount) : p.pointOf (p.extend x) = x := by
  refine List.ext_getElem ((p.length_pointOf _).trans hx.symm) fun j hj hj' => ?_
  simp only [pointOf, List.getElem_map, List.getElem_range]
  rw [extend_of_lt hx (hx ▸ hj'), List.getD_eq_getElem _ _ hj']

end Problem

end LinearProgram
