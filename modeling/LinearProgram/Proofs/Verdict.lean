import LinearProgram.Proofs.Feasibility

/-! # What a tableau decides

A tableau of a problem with artificials at zero and no gaining column holds an optimal point. A
gaining column that no row bounds, and along which no artificial grows, leaves the problem without a
bound.
-/

namespace LinearProgram

namespace Problem

variable {p : Problem ℚ} {t : Tableau ℚ} {z : ℕ → ℚ} {x : List ℚ}

theorem isArtificial_add {k : ℕ} (hk : k < columnsNeeded .artificial p.normalizedRows) :
    p.standardForm.isArtificial (p.firstColumn .artificial + k) = true :=
  (isArtificial_iff rfl _).mpr ⟨Nat.le_add_right .., by rw [columnCount_eq rfl]; omega⟩

theorem artificialSum_nonneg (hz : ∀ j, 0 ≤ z j) : 0 ≤ p.artificialSum z :=
  Finset.sum_nonneg fun _ _ => hz _

theorem artificialSum_eq_zero (ha : ∀ j, p.standardForm.isArtificial j = true → z j = 0) :
    p.artificialSum z = 0 :=
  Finset.sum_eq_zero fun _ hk => ha _ (isArtificial_add (Finset.mem_range.mp hk))

theorem le_artificialSum (hz : ∀ j, 0 ≤ z j) {j : ℕ} (hj : p.standardForm.isArtificial j = true) :
    z j ≤ p.artificialSum z := by
  obtain ⟨hle, hlt⟩ := (isArtificial_iff rfl j).mp hj
  obtain ⟨k, rfl⟩ := Nat.exists_eq_add_of_le hle
  rw [columnCount_eq rfl] at hlt
  exact Finset.single_le_sum (f := fun k => z (p.firstColumn .artificial + k))
    (fun _ _ => hz _) (Finset.mem_range.mpr (by omega))

theorem length_costs (t : Tableau ℚ) (coefficients : List ℚ) (artificial : ℚ) :
    (t.costs coefficients artificial).length = t.columnCount := by
  simp [Tableau.costs, Tableau.columnCount]

/-- Penalties do not count at a solution without artificial parts. -/
theorem combine_costs_objective (ht : t.columns = p.standardColumns) (artificial : ℚ)
    (ha : ∀ j, p.standardForm.isArtificial j = true → z j = 0) :
    combine (t.costs p.objective.coefficients artificial) z =
      p.objective.evaluate (p.pointOf z) := by
  rw [combine_costs ht rfl, artificialSum_eq_zero ha, mul_zero, add_zero, evaluate_pointOf]

end Problem

namespace Tableau

variable {p : Problem ℚ} {t u : Tableau ℚ} {allowed : ℕ → Bool} {penalty : ℚ} {col : ℕ}

/-- With artificials at zero the basic solution has no artificial part. -/
theorem IsFormOf.basicPoint_artificial (h : t.IsFormOf p) (hlevel : t.ArtificialsAtMost 0) {j : ℕ}
    (hj : p.standardForm.isArtificial j = true) : t.basicPoint j = 0 :=
  le_antisymm (h.basicPoint_artificial_le le_rfl hlevel ((h.isArtificial_eq j).trans hj))
    (h.solved.basicPoint_nonneg h.feasible j)

theorem IsFormOf.atMost_artificialSum (h : t.IsFormOf p) :
    t.ArtificialsAtMost (p.artificialSum t.basicPoint) := by
  intro r hr hart
  rw [← h.solved.basicPoint_basic hr]
  exact p.le_artificialSum (h.solved.basicPoint_nonneg h.feasible)
    ((h.isArtificial_eq _).symm.trans hart)

/-- Without a gaining column the basic solution is optimal, whatever artificials cost. -/
theorem IsFormOf.optimal_assignment (h : t.IsFormOf p)
    (hl : ∀ c ∈ p.constraints, c.coefficients.length = p.variableCount)
    (hu : u.columns = p.standardColumns)
    (hp : t.Prices (u.costs p.objective.coefficients penalty)) (hlevel : t.ArtificialsAtMost 0)
    (hgain : ∀ col < t.columnCount, allowed col = true → t.gain p.objective.sense col ≤ 0)
    (hbar : ∀ j, allowed j = false → p.standardForm.isArtificial j = true) :
    p.Optimal t.assignment := by
  have hart : ∀ j, p.standardForm.isArtificial j = true → t.basicPoint j = 0 :=
    fun j => h.basicPoint_artificial hlevel
  rw [h.assignment_eq]
  refine ⟨p.feasible_pointOf hl (h.solves_iff.mp h.solved.solves_basicPoint)
    (h.solved.basicPoint_nonneg h.feasible) hart, fun y hy => ?_⟩
  have hext : ∀ j, p.standardForm.isArtificial j = true → p.extend y j = 0 :=
    fun j => p.extend_artificial hy.length_eq
  have hbest := hp.basicPoint_optimal h.solved hgain (h.solves_iff.mpr (p.solves_extend hl hy))
    (p.extend_nonneg hy) fun j hj => hext j (hbar j hj)
  rw [p.combine_costs_objective hu penalty hart, p.combine_costs_objective hu penalty hext,
    p.pointOf_extend hy.length_eq] at hbest
  rw [Objective.improves_iff, not_lt]
  exact hbest

/-- With artificials at zero, an edge along a column that moves none of them has no artificial
part. -/
theorem IsFormOf.edgePoint_artificial (h : t.IsFormOf p) (hlevel : t.ArtificialsAtMost 0)
    (hart : t.isArtificial col = false)
    (hstill : ∀ r ∈ t.rows, t.isArtificial r.basic = true → r.entry col = 0) (level : ℚ) {j : ℕ}
    (hj : p.standardForm.isArtificial j = true) : t.edgePoint col level j = 0 := by
  rw [← h.isArtificial_eq] at hj
  by_cases hb : ∃ r ∈ t.rows, r.basic = j
  · obtain ⟨r, hr, rfl⟩ := hb
    have hsol : r.solution = 0 := le_antisymm (hlevel r hr hj) (h.feasible r hr)
    rw [h.solved.edgePoint_basic hr, hstill r hr hj, hsol, mul_zero, sub_zero]
  · rw [edgePoint_of_not_basic fun r hr hrj => hb ⟨r, hr, hrj⟩, if_neg]
    rintro rfl
    rw [hart] at hj
    cases hj

/-- Along an unbounded column without artificial parts the objective passes every value. -/
theorem IsFormOf.unbounded (h : t.IsFormOf p)
    (hl : ∀ c ∈ p.constraints, c.coefficients.length = p.variableCount)
    (hu : u.columns = p.standardColumns)
    (hp : t.Prices (u.costs p.objective.coefficients penalty)) (hlevel : t.ArtificialsAtMost 0)
    (hcol : col < t.columnCount) (hgain : 0 < t.gain p.objective.sense col)
    (hfree : ∀ r ∈ t.rows, r.entry col ≤ 0) (hart : t.isArtificial col = false)
    (hstill : ∀ r ∈ t.rows, t.isArtificial r.basic = true → r.entry col = 0) : p.Unbounded := by
  intro bound
  obtain ⟨level, h0, hbeyond⟩ := hp.exists_edgePoint_beyond h.solved hcol hgain bound
  have hzero : ∀ j, p.standardForm.isArtificial j = true → t.edgePoint col level j = 0 :=
    fun j => h.edgePoint_artificial hlevel hart hstill level
  have hsolves : t.Solves (t.edgePoint col level) :=
    h.solved.solves_edgePoint (Or.inl hcol) (hp.basic_ne_of_gain_pos hgain)
  refine ⟨p.pointOf (t.edgePoint col level), p.feasible_pointOf hl (h.solves_iff.mp hsolves)
    (edgePoint_feasible h.solved h.feasible hfree h0) hzero, ?_⟩
  rwa [Objective.improves_iff, ← p.combine_costs_objective hu penalty hzero]

end Tableau

end LinearProgram
