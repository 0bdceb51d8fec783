import LinearProgram.Proofs.Stage
import LinearProgram.Tableau.StandardForm
import Mathlib.Data.List.Basic

/-! # Widths of rows

All rows of a tableau have one entry for each of its columns. Whatever the numbers are, neither
loading costs nor a pivot changes how wide a row is.
-/

namespace LinearProgram

variable {α : Type} [Scalar α]

namespace Row

variable {r s : Row α} {col : ℕ}

omit [Scalar α] in
theorem length_map (f : α → α) (r : Row α) : (r.map f).entries.length = r.entries.length := by
  simp [map]

omit [Scalar α] in
theorem length_set (j : ℕ) (x : α) : (r.set j x).entries.length = r.entries.length := by
  simp [set]

omit [Scalar α] in
theorem length_values (r : Row α) : r.values.length = r.entries.length + 1 := by
  rw [values, List.length_append, List.length_singleton]

theorem getElem?_values (h : col < r.entries.length) : r.values[col]? = some (r.entry col) := by
  rw [values, List.getElem?_append_left h, entry, List.getD_eq_getElem?_getD,
    List.getElem?_eq_getElem h, Option.getD_some]

theorem length_subtract (h : r.entries.length = s.entries.length) (f : α) :
    (r.subtract f s).entries.length = r.entries.length := by
  simp [subtract, zipWith, h]

theorem length_eliminate (h : r.entries.length = s.entries.length) (tolerance : α) (col : ℕ) :
    (r.eliminate tolerance s col).entries.length = r.entries.length := by
  unfold eliminate
  split
  · rfl
  · rw [length_set, length_map, length_subtract h]

theorem length_scaleTo (r : Row α) (col : ℕ) :
    (r.scaleTo col).entries.length = r.entries.length := by
  rw [scaleTo, length_set, length_map]

end Row

namespace Tableau

variable {t : Tableau α} {r : BasicRow α} {row col : ℕ} {tolerance : α}

@[simp] theorem columns_pivot (tolerance : α) (t : Tableau α) (row col : ℕ) :
    (t.pivot tolerance row col).columns = t.columns := by
  rw [pivot]
  split <;> rfl

@[simp] theorem columnCount_pivot (tolerance : α) (t : Tableau α) (row col : ℕ) :
    (t.pivot tolerance row col).columnCount = t.columnCount := by
  rw [columnCount, columns_pivot, columnCount]

@[simp] theorem length_rows_pivot (tolerance : α) (t : Tableau α)
    (row col : ℕ) : (t.pivot tolerance row col).rows.length = t.rows.length := by
  rw [pivot]
  split
  · rfl
  · simp only [List.length_set, List.length_map]

theorem getElem?_rows_pivot (tolerance : α) (hr : t.rows[row]? = some r) (col i : ℕ) :
    (t.pivot tolerance row col).rows[i]? = t.rows[i]?.map fun s =>
      if i = row then ⟨r.scaleTo col, col⟩
      else ⟨s.eliminate tolerance (r.scaleTo col) col, s.basic⟩ := by
  have hlt : row < t.rows.length := (List.getElem?_eq_some_iff.mp hr).1
  simp only [pivot, hr, List.getElem?_set, List.length_map, List.getElem?_map]
  by_cases hi : row = i
  · subst hi
    simp [hlt]
  · rw [if_neg hi]
    refine Option.map_congr fun s _ => ?_
    rw [if_neg (Ne.symm hi)]

theorem length_priceOutRow (tolerance : α) {objective : Row α} {r : BasicRow α}
    (h : objective.entries.length = r.entries.length) :
    (priceOutRow tolerance objective r).entries.length = objective.entries.length := by
  simp only [priceOutRow]
  split
  · exact Row.length_subtract h _
  · rfl

/-- All rows are as wide as the tableau. -/
structure IsRectangular (t : Tableau α) : Prop where
  width : ∀ r ∈ t.rows, r.entries.length = t.columnCount
  objective_width : t.objective.entries.length = t.columnCount

omit [Scalar α] in
theorem IsRectangular.length_of_mem_grid (h : t.IsRectangular) {values : List α}
    (hmem : values ∈ t.grid) : values.length = t.columnCount + 1 := by
  rcases List.mem_append.mp hmem with hmem | hmem
  · obtain ⟨r, hr, rfl⟩ := List.mem_map.mp hmem
    rw [Row.length_values, h.width r hr]
  · obtain rfl := List.mem_singleton.mp hmem
    rw [Row.length_values, h.objective_width]

theorem length_foldl_priceOutRow (h : t.IsRectangular) {rows : List (BasicRow α)}
    (hrows : ∀ r ∈ rows, r ∈ t.rows) {objective : Row α}
    (hw : objective.entries.length = t.columnCount) :
    (rows.foldl (priceOutRow tolerance) objective).entries.length = t.columnCount := by
  induction rows generalizing objective with
  | nil => exact hw
  | cons r rows ih =>
    obtain ⟨hr, hrest⟩ := List.forall_mem_cons.mp hrows
    exact ih hrest ((length_priceOutRow tolerance (hw.trans (h.width r hr).symm)).trans hw)

theorem IsRectangular.setObjective (h : t.IsRectangular) {costs : List α}
    (hc : costs.length = t.columnCount) : (t.setObjective tolerance costs).IsRectangular :=
  ⟨h.width, length_foldl_priceOutRow h (fun _ hr => hr) ((List.length_map _).trans hc)⟩

theorem IsRectangular.pivot (h : t.IsRectangular) (tolerance : α) (row col : ℕ) :
    (t.pivot tolerance row col).IsRectangular := by
  cases hr : t.rows[row]? with
  | none =>
    rw [Tableau.pivot, hr]
    exact h
  | some r =>
    have hw (n : ℕ) (hn : n = t.columnCount) : n = (r.scaleTo col).entries.length := by
      rw [Row.length_scaleTo, h.width r (List.mem_of_getElem? hr), hn]
    constructor
    · intro s' hs'
      obtain ⟨i, hi⟩ := List.mem_iff_getElem?.mp hs'
      rw [getElem?_rows_pivot tolerance hr] at hi
      obtain ⟨s, hs, rfl⟩ := Option.map_eq_some_iff.mp hi
      have hwidth := h.width s (List.mem_of_getElem? hs)
      rw [columnCount_pivot]
      split
      · exact (hw _ rfl).symm
      · exact (Row.length_eliminate (hw _ hwidth) ..).trans hwidth
    · rw [columnCount_pivot]
      simp only [Tableau.pivot, hr]
      rw [Row.length_eliminate (hw _ h.objective_width), h.objective_width]

end Tableau

theorem Leg.columns_final (leg : Leg α) : leg.stage.final.columns = leg.loaded.columns := by
  refine Goal.run_invariant (fun t => t.columns = leg.loaded.columns) rfl fun d hd h => ?_
  rw [(Goal.isStep_of_mem_run d hd).after_eq, Tableau.columns_pivot, h]

theorem Leg.isRectangular_final {leg : Leg α} (h : leg.loaded.IsRectangular)
    (hc : leg.costs.length = leg.loaded.columnCount) : leg.stage.final.IsRectangular :=
  Goal.run_invariant _ (h.setObjective hc) fun d hd hbefore => by
    rw [(Goal.isStep_of_mem_run d hd).after_eq]
    exact hbefore.pivot _ _ _

section StandardForm

theorem length_ownEntries (kind : ColumnKind) (n : ℕ) (before : List (Constraint α))
    (c : Constraint α) (x : α) : (ownEntries kind n before c x).length = n := by
  rw [ownEntries]
  split <;> simp [unitEntries]

theorem Constraint.length_normalized (c : Constraint α) :
    c.normalized.coefficients.length = c.coefficients.length := by
  rw [normalized]
  split
  · exact List.length_map _
  · rfl

theorem length_numberedColumns (base : String) (kind : ColumnKind) (n : ℕ) :
    (numberedColumns base kind n).length = n := by
  rw [numberedColumns, List.length_map, numberedNames, List.length_map, List.length_range]

namespace Problem

theorem getElem?_standardRows (p : Problem α) (before rows : List (Constraint α)) (i : ℕ) :
    (p.standardRows before rows)[i]? =
      rows[i]?.map (p.standardRow (before ++ rows.take i)) := by
  induction rows generalizing before i with
  | nil => simp [standardRows]
  | cons c rows ih =>
    cases i with
    | zero => simp [standardRows]
    | succ i => simp [standardRows, ih]

theorem length_standardRows (p : Problem α)
    (before rows : List (Constraint α)) : (p.standardRows before rows).length = rows.length := by
  induction rows generalizing before with
  | nil => rfl
  | cons c rows ih => rw [standardRows, List.length_cons, ih, List.length_cons]

theorem length_rows_standardForm (p : Problem α) :
    p.standardForm.rows.length = p.constraintCount := by
  rw [standardForm, length_standardRows, normalizedRows, List.length_map, constraintCount]

theorem getElem?_rows_standardForm (p : Problem α) (i : ℕ) :
    p.standardForm.rows[i]? =
      p.normalizedRows[i]?.map (p.standardRow (p.normalizedRows.take i)) := by
  rw [standardForm, getElem?_standardRows, List.nil_append]

variable {p : Problem α} (hl : ∀ c ∈ p.constraints, c.coefficients.length = p.variableCount)

include hl

theorem length_of_mem_normalizedRows {c : Constraint α} (hc : c ∈ p.normalizedRows) :
    c.coefficients.length = p.variableCount := by
  obtain ⟨d, hd, rfl⟩ := List.mem_map.mp hc
  rw [Constraint.length_normalized, hl d hd]

theorem isRectangular_standardForm : p.standardForm.IsRectangular := by
  refine ⟨fun r hr => ?_, List.length_replicate⟩
  obtain ⟨i, hi⟩ := List.mem_iff_getElem?.mp hr
  rw [getElem?_rows_standardForm] at hi
  obtain ⟨c, hc, rfl⟩ := Option.map_eq_some_iff.mp hi
  simp only [Tableau.columnCount, standardForm, standardColumns, standardRow, List.length_append,
    length_ownEntries, length_numberedColumns,
    length_of_mem_normalizedRows hl (List.mem_of_getElem? hc)]

end Problem

end StandardForm

end LinearProgram
