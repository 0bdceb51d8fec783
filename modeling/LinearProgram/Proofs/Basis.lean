import LinearProgram.Proofs.Row

/-! # Tableaus in solved form

In a tableau in solved form the basic columns are unit columns. Its solutions are then read off: a
basic solution, and an edge that leaves it when one more column grows. A pivot without a tolerance
keeps the form and the solutions.
-/

namespace LinearProgram

namespace Tableau

/-- The point satisfies all constraint rows. -/
def Solves (t : Tableau ℚ) (z : ℕ → ℚ) : Prop := ∀ r ∈ t.rows, r.Holds z

/-- All rows are as wide as the tableau, and the column that is basic in a row is a unit column. -/
structure IsSolved (t : Tableau ℚ) : Prop where
  width : ∀ r ∈ t.rows, r.entries.length = t.columnCount
  unit : ∀ {i k : ℕ} {r s : BasicRow ℚ}, t.rows[i]? = some r → t.rows[k]? = some s →
    s.entry r.basic = if i = k then 1 else 0

/-- No basic variable is negative. -/
def IsFeasible (t : Tableau ℚ) : Prop := ∀ r ∈ t.rows, 0 ≤ r.solution

/-- The solution in which `col` is at `level` and every other column that is not basic at zero. -/
def edgePoint (t : Tableau ℚ) (col : ℕ) (level : ℚ) (j : ℕ) : ℚ :=
  match t.rows.reverse.find? (·.basic == j) with
  | some r => r.solution - level * r.entry col
  | none => if j = col then level else 0

/-- The solution in which every column that is not basic is at zero. -/
def basicPoint (t : Tableau ℚ) : ℕ → ℚ := t.edgePoint t.columnCount 0

variable {t : Tableau ℚ}

theorem IsSolved.entry_basic (h : t.IsSolved) {r : BasicRow ℚ} (hr : r ∈ t.rows) :
    r.entry r.basic = 1 := by
  obtain ⟨i, hi⟩ := List.mem_iff_getElem?.mp hr
  rw [h.unit hi hi, if_pos rfl]

theorem IsSolved.basic_lt (h : t.IsSolved) {r : BasicRow ℚ} (hr : r ∈ t.rows) :
    r.basic < t.columnCount := by
  rw [← h.width r hr]
  exact Row.lt_length_of_entry_ne_zero (by rw [h.entry_basic hr]; exact one_ne_zero)

/-- A column is basic in one row only. -/
theorem IsSolved.index_eq_of_basic_eq (h : t.IsSolved) {i k : ℕ} {r s : BasicRow ℚ}
    (hi : t.rows[i]? = some r) (hk : t.rows[k]? = some s) (hb : r.basic = s.basic) : i = k := by
  have hu := h.unit hi hk
  rw [hb, h.entry_basic (List.mem_of_getElem? hk)] at hu
  by_contra hne
  rw [if_neg hne] at hu
  exact one_ne_zero hu

theorem IsSolved.eq_of_basic_eq (h : t.IsSolved) {r s : BasicRow ℚ} (hr : r ∈ t.rows)
    (hs : s ∈ t.rows) (hb : r.basic = s.basic) : r = s := by
  obtain ⟨i, hi⟩ := List.mem_iff_getElem?.mp hr
  obtain ⟨k, hk⟩ := List.mem_iff_getElem?.mp hs
  obtain rfl := h.index_eq_of_basic_eq hi hk hb
  exact Option.some.inj (hi.symm.trans hk)

theorem IsSolved.entry_basic_of_ne (h : t.IsSolved) {r s : BasicRow ℚ} (hr : r ∈ t.rows)
    (hs : s ∈ t.rows) (hne : s.basic ≠ r.basic) : r.entry s.basic = 0 := by
  obtain ⟨i, hi⟩ := List.mem_iff_getElem?.mp hr
  obtain ⟨k, hk⟩ := List.mem_iff_getElem?.mp hs
  have hki : k ≠ i := by
    rintro rfl
    exact hne (congrArg BasicRow.basic (Option.some.inj (hk.symm.trans hi)))
  rw [h.unit hk hi, if_neg hki]

theorem IsSolved.edgePoint_basic (h : t.IsSolved) {r : BasicRow ℚ} (hr : r ∈ t.rows) (col : ℕ)
    (level : ℚ) : t.edgePoint col level r.basic = r.solution - level * r.entry col := by
  have hsome : (t.rows.reverse.find? (·.basic == r.basic)).isSome := by
    rw [List.find?_isSome]
    exact ⟨r, List.mem_reverse.mpr hr, beq_self_eq_true _⟩
  obtain ⟨s, hs⟩ := Option.isSome_iff_exists.mp hsome
  have hb : s.basic = r.basic := by simpa using List.find?_some hs
  have hmem : s ∈ t.rows := List.mem_reverse.mp (List.mem_of_find?_eq_some hs)
  obtain rfl : s = r := h.eq_of_basic_eq hmem hr hb
  rw [edgePoint, hs]

theorem edgePoint_of_not_basic {j : ℕ} (hj : ∀ r ∈ t.rows, r.basic ≠ j) (col : ℕ) (level : ℚ) :
    t.edgePoint col level j = if j = col then level else 0 := by
  have hnone : t.rows.reverse.find? (·.basic == j) = none := by
    rw [List.find?_eq_none]
    intro r hr
    simpa using hj r (List.mem_reverse.mp hr)
  rw [edgePoint, hnone]

/-- A linear form that vanishes on the basic columns grows along an edge by its own entry. -/
theorem sum_edgePoint {a : ℕ → ℚ} {col : ℕ} {level : ℚ} (ha : ∀ r ∈ t.rows, a r.basic = 0)
    (hcol : col < t.columnCount ∨ level = 0) :
    ∑ j ∈ Finset.range t.columnCount, a j * t.edgePoint col level j = a col * level := by
  have hterm : ∀ j, a j * t.edgePoint col level j = if j = col then a col * level else 0 := by
    intro j
    by_cases hb : ∃ r ∈ t.rows, r.basic = j
    · obtain ⟨r, hr, rfl⟩ := hb
      rw [ha r hr, zero_mul]
      split
      · next hj => rw [← hj, ha r hr, zero_mul]
      · rfl
    · rw [edgePoint_of_not_basic (fun r hr h => hb ⟨r, hr, h⟩), mul_ite, mul_zero]
      split
      · next hj => rw [hj]
      · rfl
  rw [Finset.sum_congr rfl fun j _ => hterm j, Finset.sum_ite_eq']
  rcases hcol with hcol | rfl
  · rw [if_pos (Finset.mem_range.mpr hcol)]
  · rw [mul_zero, ite_self]

theorem IsSolved.solves_edgePoint (h : t.IsSolved) {col : ℕ} {level : ℚ}
    (hcol : col < t.columnCount ∨ level = 0) (hb : ∀ r ∈ t.rows, r.basic ≠ col) :
    t.Solves (t.edgePoint col level) := by
  intro r hr
  -- The form without its own basic column vanishes on all basic columns.
  let a : ℕ → ℚ := fun j => if j = r.basic then 0 else r.entry j
  have ha : ∀ s ∈ t.rows, a s.basic = 0 := by
    intro s hs
    by_cases hsr : s.basic = r.basic
    · exact if_pos hsr
    · rw [← h.entry_basic_of_ne hr hs hsr]
      exact if_neg hsr
  have hsplit : ∀ j, r.entry j * t.edgePoint col level j =
      (if j = r.basic then t.edgePoint col level r.basic else 0) +
        a j * t.edgePoint col level j := by
    intro j
    by_cases hj : j = r.basic
    · subst hj
      simp [a, h.entry_basic hr]
    · simp [a, hj]
  have hown : a col = r.entry col := if_neg (hb r hr).symm
  rw [Row.Holds, Row.value_eq_sum (h.width r hr), Finset.sum_congr rfl fun j _ => hsplit j,
    Finset.sum_add_distrib, Finset.sum_ite_eq', if_pos (Finset.mem_range.mpr (h.basic_lt hr)),
    sum_edgePoint ha hcol, h.edgePoint_basic hr, hown]
  ring

theorem IsSolved.edgePoint_nonneg (h : t.IsSolved) {col : ℕ} {level : ℚ} (hl : 0 ≤ level)
    (hr : ∀ r ∈ t.rows, level * r.entry col ≤ r.solution) (j : ℕ) :
    0 ≤ t.edgePoint col level j := by
  by_cases hb : ∃ r ∈ t.rows, r.basic = j
  · obtain ⟨r, hmem, rfl⟩ := hb
    rw [h.edgePoint_basic hmem]
    exact sub_nonneg.mpr (hr r hmem)
  · rw [edgePoint_of_not_basic fun r hr hj => hb ⟨r, hr, hj⟩]
    split
    · exact hl
    · exact le_rfl

theorem IsSolved.basicPoint_basic (h : t.IsSolved) {r : BasicRow ℚ} (hr : r ∈ t.rows) :
    t.basicPoint r.basic = r.solution := by
  rw [basicPoint, h.edgePoint_basic hr, zero_mul, sub_zero]

theorem basicPoint_of_not_basic {j : ℕ} (hj : ∀ r ∈ t.rows, r.basic ≠ j) :
    t.basicPoint j = 0 := by
  rw [basicPoint, edgePoint_of_not_basic hj, ite_self]

theorem IsSolved.solves_basicPoint (h : t.IsSolved) : t.Solves t.basicPoint :=
  h.solves_edgePoint (Or.inr rfl) fun _ hr => (h.basic_lt hr).ne

theorem IsSolved.basicPoint_nonneg (h : t.IsSolved) (hf : t.IsFeasible) (j : ℕ) :
    0 ≤ t.basicPoint j :=
  h.edgePoint_nonneg le_rfl (fun r hr => by rw [zero_mul]; exact hf r hr) j

/-- The values of the decision variables are those of the basic solution. -/
theorem assignment_eq (t : Tableau ℚ) :
    t.assignment = (List.range (t.count .decision)).map t.basicPoint := by
  refine List.map_congr_left fun j _ => ?_
  rw [basicPoint, edgePoint]
  split
  · next r hr => simp only [hr, zero_mul, sub_zero, Scalar.unsignedZero_eq]
  · next hr => simp only [hr, ite_self]

end Tableau

end LinearProgram
