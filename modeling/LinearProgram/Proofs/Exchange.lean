import LinearProgram.Proofs.Basis

/-! # Exchanging a basic column

A pivot without a tolerance keeps the solved form, the solutions, and what the objective row says
about them. With the lowest ratio it keeps the basic solution feasible; from a row at zero it keeps
every basic value.
-/

namespace LinearProgram

namespace Row

variable {r : Row ℚ} {col : ℕ}

theorem entry_scaleTo (h : r.entry col ≠ 0) (j : ℕ) :
    (r.scaleTo col).entry j = r.entry j / r.entry col := by
  rw [scaleTo_eq h, entry_map (f := (· / r.entry col)) (zero_div _)]

theorem entry_scaleTo_self (h : r.entry col ≠ 0) : (r.scaleTo col).entry col = 1 := by
  rw [entry_scaleTo h, div_self h]

theorem solution_scaleTo (r : Row ℚ) (col : ℕ) :
    (r.scaleTo col).solution = r.solution / r.entry col := rfl

theorem value_scaleTo (h : r.entry col ≠ 0) (z : ℕ → ℚ) :
    (r.scaleTo col).value z = r.value z / r.entry col := by
  rw [value_eq_sum (length_scaleTo r col), value_eq_sum rfl, Finset.sum_div]
  refine Finset.sum_congr rfl fun j _ => ?_
  rw [entry_scaleTo h]
  ring

theorem holds_scaleTo (h : r.entry col ≠ 0) (z : ℕ → ℚ) : (r.scaleTo col).Holds z ↔ r.Holds z := by
  rw [Holds, Holds, value_scaleTo h, solution_scaleTo, div_left_inj' h]

end Row

namespace Tableau

/-- The objective row prices these costs: it has no entry in a basic column, and at every solution
the costs and the row add up to the objective value. -/
structure Prices (t : Tableau ℚ) (costs : List ℚ) : Prop where
  width : t.objective.entries.length = t.columnCount
  reduced : ∀ r ∈ t.rows, t.objective.entry r.basic = 0
  total : ∀ z, t.Solves z → combine costs z + t.objective.value z = t.objectiveValue

section Pivot

variable {t : Tableau ℚ} {row col : ℕ} {r : BasicRow ℚ}

theorem getElem?_pivot (h : t.IsSolved) (hr : t.rows[row]? = some r) (hne : r.entry col ≠ 0)
    (i : ℕ) :
    (t.pivot 0 row col).rows[i]? = t.rows[i]?.map fun s =>
      if i = row then ⟨r.scaleTo col, col⟩
      else ⟨s.subtract (s.entry col) (r.scaleTo col), s.basic⟩ := by
  rw [getElem?_rows_pivot 0 hr]
  refine Option.map_congr fun s hs => ?_
  have hw : s.entries.length = (r.scaleTo col).entries.length := by
    rw [Row.length_scaleTo, h.width s (List.mem_of_getElem? hs),
      h.width r (List.mem_of_getElem? hr)]
  rw [Row.eliminate_zero hw (Row.entry_scaleTo_self hne)]

theorem objective_pivot (h : t.IsSolved) (hw : t.objective.entries.length = t.columnCount)
    (hr : t.rows[row]? = some r) (hne : r.entry col ≠ 0) :
    (t.pivot 0 row col).objective =
      t.objective.subtract (t.objective.entry col) (r.scaleTo col) := by
  have hw : t.objective.entries.length = (r.scaleTo col).entries.length := by
    rw [Row.length_scaleTo, hw, h.width r (List.mem_of_getElem? hr)]
  simp only [pivot, hr]
  exact Row.eliminate_zero hw (Row.entry_scaleTo_self hne)

/-- What the rows of a pivoted tableau can be. -/
theorem mem_pivot (h : t.IsSolved) (hr : t.rows[row]? = some r) (hne : r.entry col ≠ 0)
    {s' : BasicRow ℚ} (hs' : s' ∈ (t.pivot 0 row col).rows) :
    s' = ⟨r.scaleTo col, col⟩ ∨ ∃ i s, i ≠ row ∧ t.rows[i]? = some s ∧
      s' = ⟨s.subtract (s.entry col) (r.scaleTo col), s.basic⟩ := by
  obtain ⟨i, hi⟩ := List.mem_iff_getElem?.mp hs'
  rw [getElem?_pivot h hr hne] at hi
  obtain ⟨s, hs, rfl⟩ := Option.map_eq_some_iff.mp hi
  by_cases hir : i = row
  · exact Or.inl (if_pos hir)
  · exact Or.inr ⟨i, s, hir, hs, if_neg hir⟩

/-- In the pivot row other basic columns have no entry. -/
theorem IsSolved.entry_scaleTo_basic (h : t.IsSolved) (hr : t.rows[row]? = some r)
    (hne : r.entry col ≠ 0) {i : ℕ} {s : BasicRow ℚ} (hs : t.rows[i]? = some s) (hi : i ≠ row) :
    (r.scaleTo col).entry s.basic = 0 := by
  rw [Row.entry_scaleTo hne, h.unit hs hr, if_neg hi, zero_div]

/-- A column with an entry in a row is not basic in any other row. -/
theorem IsSolved.basic_ne_of_entry_ne_zero (h : t.IsSolved) (hr : t.rows[row]? = some r)
    (hne : r.entry col ≠ 0) {i : ℕ} {s : BasicRow ℚ} (hs : t.rows[i]? = some s) (hi : i ≠ row) :
    s.basic ≠ col := by
  rintro rfl
  exact hne (by rw [h.unit hs hr, if_neg hi])

/-- Rounding under a tolerance up to one leaves unit columns as they are. -/
theorem IsSolved.pivot_of_le_one (h : t.IsSolved) {tolerance : ℚ} (hτ : tolerance ≤ 1)
    (hr : t.rows[row]? = some r) (hne : r.entry col ≠ 0) :
    (t.pivot tolerance row col).IsSolved := by
  have hw : ∀ {i : ℕ} {s : BasicRow ℚ}, t.rows[i]? = some s →
      s.entries.length = (r.scaleTo col).entries.length := fun hs => by
    rw [Row.length_scaleTo, h.width _ (List.mem_of_getElem? hs),
      h.width r (List.mem_of_getElem? hr)]
  constructor
  · intro s' hs'
    obtain ⟨i, hi⟩ := List.mem_iff_getElem?.mp hs'
    rw [getElem?_rows_pivot tolerance hr] at hi
    obtain ⟨s, hs, rfl⟩ := Option.map_eq_some_iff.mp hi
    rw [columnCount_pivot]
    by_cases hir : i = row
    · rw [if_pos hir]
      exact (hw hr).symm.trans (h.width r (List.mem_of_getElem? hr))
    · rw [if_neg hir]
      exact (Row.length_eliminate (hw hs) ..).trans (h.width s (List.mem_of_getElem? hs))
  · intro i k r' s' hi hk
    rw [getElem?_rows_pivot tolerance hr] at hi hk
    obtain ⟨a, ha, rfl⟩ := Option.map_eq_some_iff.mp hi
    obtain ⟨b, hb, rfl⟩ := Option.map_eq_some_iff.mp hk
    by_cases hir : i = row <;> by_cases hkr : k = row
    · rw [if_pos hir, if_pos hkr, if_pos (hir.trans hkr.symm)]
      exact Row.entry_scaleTo_self hne
    · have hik : i ≠ k := fun hik => hkr (hik ▸ hir)
      rw [if_pos hir, if_neg hkr, if_neg hik]
      exact Row.entry_eliminate_self (hw hb) tolerance col
    · have hik : i ≠ k := fun hik => hir (hik ▸ hkr)
      have hzero := h.entry_scaleTo_basic hr hne ha hir
      rw [if_neg hir, if_pos hkr, if_neg hik]
      exact hzero
    · rw [if_neg hir, if_neg hkr]
      -- The unit entry stays or is rounded, and it is zero or one.
      obtain hb' | hb' := Row.entry_eliminate_of_zero (hw hb) tolerance
        (h.entry_scaleTo_basic hr hne ha hir) (h.basic_ne_of_entry_ne_zero hr hne ha hir)
      · rw [hb', h.unit ha hb]
      · rw [hb', h.unit ha hb]
        split
        · exact Row.snap_one hτ
        · exact Row.snap_of_zero tolerance

theorem IsSolved.pivot (h : t.IsSolved) (hr : t.rows[row]? = some r) (hne : r.entry col ≠ 0) :
    (t.pivot 0 row col).IsSolved :=
  h.pivot_of_le_one zero_le_one hr hne

theorem solves_pivot (h : t.IsSolved) (hr : t.rows[row]? = some r) (hne : r.entry col ≠ 0)
    {z : ℕ → ℚ} : (t.pivot 0 row col).Solves z ↔ t.Solves z := by
  have hw : ∀ {i : ℕ} {s : BasicRow ℚ}, t.rows[i]? = some s →
      s.entries.length = (r.scaleTo col).entries.length := fun hs => by
    rw [Row.length_scaleTo, h.width _ (List.mem_of_getElem? hs),
      h.width r (List.mem_of_getElem? hr)]
  have hget := getElem?_pivot h hr hne
  constructor
  · intro hz s hs
    have hpr : (r.scaleTo col).Holds z :=
      hz ⟨r.scaleTo col, col⟩ (List.mem_of_getElem? ((hget row).trans (by rw [hr]; simp)))
    obtain ⟨i, hi⟩ := List.mem_iff_getElem?.mp hs
    by_cases hir : i = row
    · obtain rfl : r = s := Option.some.inj (hr.symm.trans (hir ▸ hi))
      exact (Row.holds_scaleTo hne z).mp hpr
    · exact (Row.Holds.subtract (hw hi) (s.entry col) hpr).mp
        (hz ⟨s.subtract (s.entry col) (r.scaleTo col), s.basic⟩
          (List.mem_of_getElem? ((hget i).trans (by rw [hi]; simp [hir]))))
  · intro hz s' hs'
    have hpr : (r.scaleTo col).Holds z :=
      (Row.holds_scaleTo hne z).mpr (hz r (List.mem_of_getElem? hr))
    obtain rfl | ⟨i, s, -, hs, rfl⟩ := mem_pivot h hr hne hs'
    · exact hpr
    · exact (Row.Holds.subtract (hw hs) (s.entry col) hpr).mpr (hz s (List.mem_of_getElem? hs))

theorem Prices.pivot {costs : List ℚ} (hp : t.Prices costs) (h : t.IsSolved)
    (hr : t.rows[row]? = some r) (hne : r.entry col ≠ 0) :
    (t.pivot 0 row col).Prices costs := by
  have hmem := List.mem_of_getElem? hr
  have hw : t.objective.entries.length = (r.scaleTo col).entries.length := by
    rw [Row.length_scaleTo, hp.width, h.width r hmem]
  refine ⟨?_, fun s' hs' => ?_, fun z hz => ?_⟩
  · rw [objective_pivot h hp.width hr hne, columnCount_pivot, ← hp.width]
    exact Row.length_subtract hw _
  · rw [objective_pivot h hp.width hr hne, Row.entry_subtract hw]
    obtain rfl | ⟨i, s, hi, hs, rfl⟩ := mem_pivot h hr hne hs'
    · rw [Row.entry_scaleTo_self hne, mul_one, sub_self]
    · rw [h.entry_scaleTo_basic hr hne hs hi, hp.reduced s (List.mem_of_getElem? hs), mul_zero,
        sub_zero]
  · rw [solves_pivot h hr hne] at hz
    have hpr : (r.scaleTo col).Holds z := (Row.holds_scaleTo hne z).mpr (hz r hmem)
    have htotal := hp.total z hz
    rw [objectiveValue] at htotal ⊢
    rw [objective_pivot h hp.width hr hne, Row.value_subtract hw, Row.solution_subtract, ← htotal,
      hpr]
    ring

/-- Leaving by the lowest ratio keeps the basic solution feasible. -/
theorem IsFeasible.pivot (hf : t.IsFeasible) (h : t.IsSolved) (hr : t.rows[row]? = some r)
    (hpos : 0 < r.entry col)
    (hlow : ∀ s ∈ t.rows, 0 < s.entry col →
      r.solution / r.entry col ≤ s.solution / s.entry col) :
    (t.pivot 0 row col).IsFeasible := by
  have hstep : 0 ≤ r.solution / r.entry col := div_nonneg (hf r (List.mem_of_getElem? hr)) hpos.le
  intro s' hs'
  obtain rfl | ⟨i, s, -, hs, rfl⟩ := mem_pivot h hr hpos.ne' hs'
  · exact hstep
  · have hmem := List.mem_of_getElem? hs
    rw [Row.solution_subtract, Row.solution_scaleTo, sub_nonneg]
    rcases le_or_gt (s.entry col) 0 with hle | hgt
    · exact (mul_nonpos_of_nonpos_of_nonneg hle hstep).trans (hf s hmem)
    · rw [mul_comm, ← le_div_iff₀ hgt]
      exact hlow s hmem hgt

/-- Exchanging the basic column of a row at zero changes no basic value. -/
theorem solution_pivot_of_zero (h : t.IsSolved) (hr : t.rows[row]? = some r)
    (hne : r.entry col ≠ 0) (hz : r.solution = 0) {s' : BasicRow ℚ}
    (hs' : s' ∈ (t.pivot 0 row col).rows) :
    s'.solution = 0 ∧ s'.basic = col ∨
      ∃ s ∈ t.rows, s'.solution = s.solution ∧ s'.basic = s.basic := by
  obtain rfl | ⟨i, s, -, hs, rfl⟩ := mem_pivot h hr hne hs'
  · exact Or.inl ⟨by rw [Row.solution_scaleTo, hz, zero_div], rfl⟩
  · refine Or.inr ⟨s, List.mem_of_getElem? hs, ?_, rfl⟩
    rw [Row.solution_subtract, Row.solution_scaleTo, hz, zero_div, mul_zero, sub_zero]

end Pivot

end Tableau

end LinearProgram
