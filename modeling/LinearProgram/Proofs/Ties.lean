import LinearProgram.Proofs.ZeroTolerance

/-! # What ties decide

A tie is a column, neither basic nor artificial, whose reduced cost is zero. Without a tie the final
tableau of an exact solve holds the only optimal point. With one, and with no basic variable at zero
that the column lowers, the edge along the column leads to another optimal point.
-/

namespace LinearProgram

theorem exists_columnsNeeded_take (kind : ColumnKind) {rows : List (Constraint ℚ)} {k : ℕ}
    (hk : k < columnsNeeded kind rows) : ∃ i c, rows[i]? = some c ∧
      c.relation.columns kind ≠ 0 ∧ columnsNeeded kind (rows.take i) = k := by
  induction rows generalizing k with
  | nil => exact absurd hk (Nat.not_lt_zero k)
  | cons c rows ih =>
    have hle : c.relation.columns kind ≤ 1 := by
      cases kind <;> cases c.relation <;> simp [Relation.columns]
    have hcons : ∀ l, columnsNeeded kind (c :: l) =
        c.relation.columns kind + columnsNeeded kind l := fun _ => rfl
    rw [hcons] at hk
    by_cases hfirst : c.relation.columns kind ≠ 0 ∧ k = 0
    · exact ⟨0, c, rfl, hfirst.1, hfirst.2.symm⟩
    · obtain ⟨i, d, hd, hkind, htake⟩ := ih (k := k - c.relation.columns kind) (by omega)
      refine ⟨i + 1, d, hd, hkind, ?_⟩
      rw [List.take_succ_cons, hcons, htake]
      omega

namespace Problem

variable {p : Problem ℚ} {z w : ℕ → ℚ} {x : List ℚ} {j : ℕ}

/-- The columns behind the variables are the slacks, surpluses and artificials that the rows
bring. -/
theorem exists_ownColumn (hj : p.variableCount ≤ j) (hlt : j < p.standardForm.columnCount) :
    ∃ kind i c, p.normalizedRows[i]? = some c ∧ c.relation.columns kind ≠ 0 ∧
      p.ownColumn kind i = j := by
  have hblock : ∀ kind, p.firstColumn kind ≤ j →
      j < p.firstColumn kind + columnsNeeded kind p.normalizedRows →
      ∃ kind i c, p.normalizedRows[i]? = some c ∧ c.relation.columns kind ≠ 0 ∧
        p.ownColumn kind i = j := by
    intro kind hfirst hlast
    have hindex : j - p.firstColumn kind < columnsNeeded kind p.normalizedRows := by omega
    obtain ⟨i, c, hc, hkind, htake⟩ := exists_columnsNeeded_take kind hindex
    exact ⟨kind, i, c, hc, hkind, by rw [ownColumn, htake]; omega⟩
  have hcount := columnCount_eq (t := p.standardForm) rfl
  by_cases hslack : j < p.firstColumn .surplus
  · exact hblock .slack hj hslack
  · by_cases hsurplus : j < p.firstColumn .artificial
    · exact hblock .surplus (not_lt.mp hslack) hsurplus
    · exact hblock .artificial (not_lt.mp hsurplus) (hcount ▸ hlt)

/-- Solutions without artificial parts that stand for one point are the same. -/
theorem eq_of_pointOf_eq (hl : ∀ c ∈ p.constraints, c.coefficients.length = p.variableCount)
    (hz : p.standardForm.Solves z) (hw : p.standardForm.Solves w)
    (haz : ∀ j, p.standardForm.isArtificial j = true → z j = 0)
    (haw : ∀ j, p.standardForm.isArtificial j = true → w j = 0)
    (heq : p.pointOf z = p.pointOf w) (hlt : j < p.standardForm.columnCount) : z j = w j := by
  have hdecision : ∀ j < p.variableCount, z j = w j := fun j hj =>
    List.map_inj_left.mp heq j (List.mem_range.mpr hj)
  by_cases hj : j < p.variableCount
  · exact hdecision j hj
  -- The row that brings the column tells its part from the point.
  obtain ⟨kind, i, c, hc, hkind, rfl⟩ := exists_ownColumn (not_lt.mp hj) hlt
  have hrow := (getElem?_rows_standardForm p i).trans (congrArg _ hc)
  have hlen := length_of_mem_normalizedRows hl (List.mem_of_getElem? hc)
  have hcombine : combine c.coefficients z = combine c.coefficients w :=
    combine_congr fun k hk => hdecision k (hlen ▸ hk)
  have hvalue := (hz _ (List.mem_of_getElem? hrow)).trans (hw _ (List.mem_of_getElem? hrow)).symm
  rw [value_standardRow hc hlen, value_standardRow hc hlen, hcombine, add_right_inj] at hvalue
  have hartificial : c.relation.columns .artificial ≠ 0 →
      z (p.ownColumn .artificial i) = 0 ∧ w (p.ownColumn .artificial i) = 0 := by
    intro hk
    have h := (isArtificial_iff (t := p.standardForm) rfl (p.ownColumn .artificial i)).mpr
      ⟨Nat.le_add_right .., (ownColumn_lt hc hk).trans_eq (columnCount_eq rfl).symm⟩
    exact ⟨haz _ h, haw _ h⟩
  obtain ⟨as, relation, bound⟩ := c
  cases relation <;> cases kind <;> simp_all [Relation.columns]

end Problem

namespace Tableau

variable {p : Problem ℚ} {t u : Tableau ℚ} {costs : List ℚ} {sense : Sense} {allowed : ℕ → Bool}
  {penalty : ℚ} {col : ℕ} {x y : List ℚ}

theorem hasTie_zero_iff : t.hasTie 0 = true ↔ ∃ col < t.columnCount, t.isArtificial col = false ∧
    (∀ r ∈ t.rows, r.basic ≠ col) ∧ t.reducedCost col = 0 := by
  simp [hasTie, Scalar.abs_eq, and_assoc]

theorem isDegenerate_zero_eq_false : t.isDegenerate 0 = false ↔
    ∀ r ∈ t.rows, t.isArtificial r.basic = false → r.solution ≠ 0 := by
  simp [isDegenerate, Scalar.abs_eq]

/-- A solution is the basic one if it has nothing outside the basis. -/
theorem IsSolved.eq_basicPoint (h : t.IsSolved) {z : ℕ → ℚ} (hz : t.Solves z)
    (hout : ∀ j, (∀ r ∈ t.rows, r.basic ≠ j) → z j = 0) (j : ℕ) : z j = t.basicPoint j := by
  by_cases hb : ∃ r ∈ t.rows, r.basic = j
  · obtain ⟨r, hr, rfl⟩ := hb
    have hsum : r.value z = z r.basic := by
      rw [Row.value_eq_sum (h.width r hr), Finset.sum_eq_single r.basic, h.entry_basic hr, one_mul]
      · intro k _ hk
        by_cases hbasic : ∃ s ∈ t.rows, s.basic = k
        · obtain ⟨s, hs, rfl⟩ := hbasic
          rw [h.entry_basic_of_ne hr hs hk, zero_mul]
        · rw [hout k fun s hs hsk => hbasic ⟨s, hs, hsk⟩, mul_zero]
      · intro hnot
        exact absurd (Finset.mem_range.mpr (h.basic_lt hr)) hnot
    rw [h.basicPoint_basic hr, ← hsum]
    exact hz r hr
  · push Not at hb
    rw [hout j hb, basicPoint_of_not_basic hb]

/-- A solution as good as the basic one has no part in a column that loses. -/
theorem Prices.eq_zero_of_gain_neg (hp : t.Prices costs) (h : t.IsSolved)
    (hgain : ∀ col < t.columnCount, allowed col = true → t.gain sense col ≤ 0) {z : ℕ → ℚ}
    (hz : t.Solves z) (hpos : ∀ j, 0 ≤ z j) (hbar : ∀ j, allowed j = false → z j = 0)
    (heq : combine costs z = combine costs t.basicPoint) (hcol : col < t.columnCount)
    (hlose : t.reducedCost col ≠ 0) : z col = 0 := by
  have hterm : ∀ j ∈ Finset.range t.columnCount,
      0 ≤ sense.sign * (t.objective.entry j * z j) := fun j hj =>
    sign_mul_entry_nonneg hgain hpos hbar (Finset.mem_range.mp hj)
  have htotal := hp.total z hz
  rw [heq, hp.combine_basicPoint h, add_eq_left, Row.value_eq_sum hp.width] at htotal
  have hsum : ∑ j ∈ Finset.range t.columnCount, sense.sign * (t.objective.entry j * z j) = 0 := by
    rw [← Finset.mul_sum, htotal, mul_zero]
  have hzero := (Finset.sum_eq_zero_iff_of_nonneg hterm).mp hsum col (Finset.mem_range.mpr hcol)
  have hsign : sense.sign ≠ 0 := by cases sense <;> simp [Sense.sign]
  exact ((mul_eq_zero.mp ((mul_eq_zero.mp hzero).resolve_left hsign)).resolve_left hlose)

/-- Rows above zero, wherever the column has a positive entry, leave it some room. -/
theorem exists_pos_level (col : ℕ) {l : List (BasicRow ℚ)} (h0 : ∀ r ∈ l, 0 ≤ r.solution)
    (hroom : ∀ r ∈ l, 0 < r.entry col → 0 < r.solution) :
    ∃ level : ℚ, 0 < level ∧ ∀ r ∈ l, level * r.entry col ≤ r.solution := by
  induction l with
  | nil => exact ⟨1, one_pos, nofun⟩
  | cons r l ih =>
    obtain ⟨level, hlevel, hle⟩ := ih (fun s hs => h0 s (List.mem_cons_of_mem r hs))
      fun s hs => hroom s (List.mem_cons_of_mem r hs)
    have hr0 := h0 r List.mem_cons_self
    -- A lower level suits the later rows as well.
    have hlower : ∀ lower, 0 < lower → lower ≤ level →
        ∀ s ∈ l, lower * s.entry col ≤ s.solution := by
      intro lower hpos hlow s hs
      rcases le_or_gt (s.entry col) 0 with hneg | hentry
      · exact (mul_nonpos_of_nonneg_of_nonpos hpos.le hneg).trans
          (h0 s (List.mem_cons_of_mem r hs))
      · exact (mul_le_mul_of_nonneg_right hlow hentry.le).trans (hle s hs)
    rcases le_or_gt (r.entry col) 0 with hneg | hentry
    · refine ⟨level, hlevel, List.forall_mem_cons.mpr ⟨?_, hle⟩⟩
      exact (mul_nonpos_of_nonneg_of_nonpos hlevel.le hneg).trans hr0
    · have hratio : 0 < r.solution / r.entry col :=
        div_pos (hroom r List.mem_cons_self hentry) hentry
      have hmin := lt_min hlevel hratio
      refine ⟨min level (r.solution / r.entry col), hmin, List.forall_mem_cons.mpr ⟨?_, ?_⟩⟩
      · exact (le_div_iff₀ hentry).mp (min_le_right ..)
      · exact hlower _ hmin (min_le_left ..)

section Form

variable (h : t.IsFormOf p)
  (hl : ∀ c ∈ p.constraints, c.coefficients.length = p.variableCount)
  (hu : u.columns = p.standardColumns)
  (hp : t.Prices (u.costs p.objective.coefficients penalty)) (hlevel : t.ArtificialsAtMost 0)
  (hbest : p.Optimal t.assignment)

include h hl hu hp hlevel hbest

/-- Without a tie and without a gaining column every optimal point is the one of the tableau. -/
theorem IsFormOf.eq_assignment
    (hgain : ∀ col < t.columnCount, allowed col = true → t.gain p.objective.sense col ≤ 0)
    (hbar : ∀ j, allowed j = false → p.standardForm.isArtificial j = true)
    (htie : t.hasTie 0 = false) (hy : p.Optimal y) : y = t.assignment := by
  have hart : ∀ j, p.standardForm.isArtificial j = true → t.basicPoint j = 0 :=
    fun j => h.basicPoint_artificial hlevel
  have hext : ∀ j, p.standardForm.isArtificial j = true → p.extend y j = 0 :=
    fun j => p.extend_artificial hy.length_eq
  have hsolves : t.Solves (p.extend y) := h.solves_iff.mpr (p.solves_extend hl hy.toFeasible)
  have hvalue : combine (u.costs p.objective.coefficients penalty) (p.extend y) =
      combine (u.costs p.objective.coefficients penalty) t.basicPoint := by
    rw [p.combine_costs_objective hu penalty hext, p.combine_costs_objective hu penalty hart,
      p.pointOf_extend hy.length_eq, ← h.assignment_eq]
    exact hy.evaluate_eq hbest
  have hout : ∀ j, (∀ r ∈ t.rows, r.basic ≠ j) → p.extend y j = 0 := by
    intro j hbasic
    cases hj : p.standardForm.isArtificial j with
    | true => exact hext j hj
    | false =>
      by_cases hlt : j < t.columnCount
      · refine hp.eq_zero_of_gain_neg h.solved hgain hsolves (p.extend_nonneg hy.toFeasible)
          (fun k hk => hext k (hbar k hk)) hvalue hlt fun hzero => ?_
        rw [hasTie_zero_iff.mpr ⟨j, hlt, (h.isArtificial_eq j).trans hj, hbasic, hzero⟩] at htie
        cases htie
      · refine List.getD_eq_default _ _ ?_
        have hcount := Problem.columnCount_eq h.columns_eq
        simp only [List.length_append, length_ownValues, hy.length_eq]
        simp only [Problem.firstColumn] at hcount
        omega
  rw [h.assignment_eq, ← p.pointOf_extend hy.length_eq]
  exact List.map_congr_left fun j _ => h.solved.eq_basicPoint hsolves hout j

/-- Along a tie that lowers no basic variable at zero lies another optimal point. -/
theorem IsFormOf.exists_ne_assignment (htie : t.hasTie 0 = true)
    (hroom : ∀ r ∈ t.rows, t.isArtificial r.basic = false → r.solution ≠ 0)
    (hidle : ∀ i, t.IsIdleAt i) : ∃ y, p.Optimal y ∧ y ≠ t.assignment := by
  obtain ⟨col, hcol, hart, hbasic, hzero⟩ := hasTie_zero_iff.mp htie
  have hstill : ∀ r ∈ t.rows, t.isArtificial r.basic = true → r.entry col = 0 := by
    intro r hr hr'
    obtain ⟨i, hi⟩ := List.mem_iff_getElem?.mp hr
    exact hidle i r hi hr' col hart
  obtain ⟨level, hpos, hle⟩ := exists_pos_level col h.feasible fun r hr hentry => by
    cases hr' : t.isArtificial r.basic with
    | true => exact absurd (hstill r hr hr') hentry.ne'
    | false => exact lt_of_le_of_ne (h.feasible r hr) (hroom r hr hr').symm
  have hedge : ∀ j, p.standardForm.isArtificial j = true → t.edgePoint col level j = 0 :=
    fun j => h.edgePoint_artificial hlevel hart hstill level
  have hpoint : ∀ j, p.standardForm.isArtificial j = true → t.basicPoint j = 0 :=
    fun j => h.basicPoint_artificial hlevel
  have hsolves : p.standardForm.Solves (t.edgePoint col level) :=
    h.solves_iff.mp (h.solved.solves_edgePoint (Or.inl hcol) hbasic)
  have hfeasible := p.feasible_pointOf hl hsolves (h.solved.edgePoint_nonneg hpos.le hle) hedge
  have hvalue : p.objective.evaluate (p.pointOf (t.edgePoint col level)) =
      p.objective.evaluate t.assignment := by
    rw [h.assignment_eq, ← p.combine_costs_objective hu penalty hedge,
      ← p.combine_costs_objective hu penalty hpoint, hp.combine_basicPoint h.solved,
      hp.combine_edgePoint h.solved (Or.inl hcol) hbasic, hzero, zero_mul, sub_zero]
  refine ⟨_, ⟨hfeasible, fun y hy => hvalue ▸ hbest.best y hy⟩, fun heq => ?_⟩
  rw [h.assignment_eq] at heq
  have hlt : col < p.standardForm.columnCount := by
    change col < p.standardColumns.length
    rw [← h.columns_eq]
    exact hcol
  have hsame := p.eq_of_pointOf_eq hl hsolves (h.solves_iff.mp h.solved.solves_basicPoint) hedge
    hpoint heq hlt
  rw [edgePoint_of_not_basic hbasic, if_pos rfl, basicPoint_of_not_basic hbasic] at hsame
  exact hpos.ne' hsame

end Form

end Tableau

end LinearProgram
