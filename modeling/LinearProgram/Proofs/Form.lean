import LinearProgram.Proofs.Points
import LinearProgram.Proofs.Pricing
import LinearProgram.Proofs.Stage

/-! # Tableaus of a problem

A tableau of a problem is in solved form, has a feasible basic solution, and has the solutions of
the standard form. A pivot keeps it one if the leaving row has the lowest ratio and no entry of the
rows is rounded away.
-/

namespace LinearProgram

/-- The leaving row has the lowest ratio of all rows with a positive entry, and the rows are those
of a pivot without rounding. -/
structure Pivot.KeepsRegion (d : Pivot ℚ) : Prop where
  lowest : ∀ r, d.before.rows[d.row]? = some r → ∀ s ∈ d.before.rows, 0 < s.entry d.column →
    r.solution / r.entry d.column ≤ s.solution / s.entry d.column
  rows_eq : d.after.rows = (d.before.pivot 0 d.row d.column).rows

instance (d : Pivot ℚ) : Decidable d.KeepsRegion :=
  decidable_of_iff ((∀ r ∈ d.before.rows[d.row]?, ∀ s ∈ d.before.rows, 0 < s.entry d.column →
      r.solution / r.entry d.column ≤ s.solution / s.entry d.column) ∧
      d.after.rows = (d.before.pivot 0 d.row d.column).rows)
    ⟨fun h => ⟨h.1, h.2⟩, fun h => ⟨h.1, h.2⟩⟩

namespace Tableau

/-- A tableau on the way from the standard form of a problem. -/
structure IsFormOf (p : Problem ℚ) (t : Tableau ℚ) : Prop where
  columns_eq : t.columns = p.standardColumns
  solved : t.IsSolved
  feasible : t.IsFeasible
  solves_iff : ∀ {z}, t.Solves z ↔ p.standardForm.Solves z

/-- No basic artificial is above the level. -/
def ArtificialsAtMost (level : ℚ) (t : Tableau ℚ) : Prop :=
  ∀ r ∈ t.rows, t.isArtificial r.basic = true → r.solution ≤ level

/-- If an artificial is basic in the row, the row has no entry in any other kind of column. -/
def IsIdleAt (t : Tableau ℚ) (i : ℕ) : Prop :=
  ∀ r, t.rows[i]? = some r → t.isArtificial r.basic = true →
    ∀ j, t.isArtificial j = false → r.entry j = 0

instance (t : Tableau ℚ) (i : ℕ) : Decidable (t.IsIdleAt i) :=
  decidable_of_iff (∀ r ∈ t.rows[i]?, t.isArtificial r.basic = true →
      ∀ j < r.entries.length, t.isArtificial j = false → r.entry j = 0)
    ⟨fun h r hr hart j hj => by
      by_cases hlt : j < r.entries.length
      · exact h r hr hart j hlt hj
      · exact Row.entry_of_length_le (not_lt.mp hlt),
    fun h r hr hart j _ hj => h r hr hart j hj⟩

variable {p : Problem ℚ} {t u : Tableau ℚ} {row col : ℕ} {r : BasicRow ℚ} {level tolerance : ℚ}

theorem isArtificial_congr {α : Type} [Scalar α] {t u : Tableau α} (hc : u.columns = t.columns)
    (j : ℕ) : u.isArtificial j = t.isArtificial j := by
  rw [isArtificial, isArtificial, hc]

@[simp] theorem isArtificial_pivot (tolerance : ℚ) (t : Tableau ℚ) (row col j : ℕ) :
    (t.pivot tolerance row col).isArtificial j = t.isArtificial j :=
  isArtificial_congr (columns_pivot ..) j

theorem IsFormOf.isArtificial_eq (h : t.IsFormOf p) (j : ℕ) :
    t.isArtificial j = p.standardForm.isArtificial j :=
  isArtificial_congr h.columns_eq j

/-- The objective row does not matter. -/
theorem IsFormOf.of_rows_eq (h : t.IsFormOf p) (hc : u.columns = t.columns)
    (hrows : u.rows = t.rows) : u.IsFormOf p := by
  refine ⟨hc.trans h.columns_eq, ⟨?_, ?_⟩, ?_, fun {z} => ?_⟩
  · rw [hrows, columnCount, hc]
    exact h.solved.width
  · rw [hrows]
    exact h.solved.unit
  · rw [IsFeasible, hrows]
    exact h.feasible
  · rw [Solves, hrows]
    exact h.solves_iff

theorem ArtificialsAtMost.of_rows_eq (h : t.ArtificialsAtMost level) (hc : u.columns = t.columns)
    (hrows : u.rows = t.rows) : u.ArtificialsAtMost level := by
  simp only [ArtificialsAtMost, isArtificial_congr hc, hrows]
  exact h

theorem IsIdleAt.of_rows_eq {i : ℕ} (h : t.IsIdleAt i) (hc : u.columns = t.columns)
    (hrows : u.rows = t.rows) : u.IsIdleAt i := by
  simp only [IsIdleAt, isArtificial_congr hc, hrows]
  exact h

theorem isFormOf_standardForm
    (hl : ∀ c ∈ p.constraints, c.coefficients.length = p.variableCount) :
    p.standardForm.IsFormOf p :=
  ⟨rfl, p.isSolved_standardForm hl, p.isFeasible_standardForm, Iff.rfl⟩

theorem IsFormOf.setObjective (h : t.IsFormOf p) (tolerance : ℚ) (costs : List ℚ) :
    (t.setObjective tolerance costs).IsFormOf p :=
  h.of_rows_eq rfl rfl

theorem IsFormOf.pivot (h : t.IsFormOf p) (hr : t.rows[row]? = some r) (hpos : 0 < r.entry col)
    (hlow : ∀ s ∈ t.rows, 0 < s.entry col →
      r.solution / r.entry col ≤ s.solution / s.entry col) :
    (t.pivot 0 row col).IsFormOf p :=
  ⟨(columns_pivot ..).trans h.columns_eq, h.solved.pivot hr hpos.ne',
    h.feasible.pivot h.solved hr hpos hlow,
    (solves_pivot h.solved hr hpos.ne').trans h.solves_iff⟩

/-- From a row at zero any column with an entry may take over. -/
theorem IsFormOf.exchange (h : t.IsFormOf p) (hr : t.rows[row]? = some r) (hne : r.entry col ≠ 0)
    (hz : r.solution = 0) : (t.pivot 0 row col).IsFormOf p := by
  refine ⟨(columns_pivot ..).trans h.columns_eq, h.solved.pivot hr hne, fun s' hs' => ?_,
    (solves_pivot h.solved hr hne).trans h.solves_iff⟩
  obtain ⟨hs, -⟩ | ⟨s, hs, heq, -⟩ := solution_pivot_of_zero h.solved hr hne hz hs'
  · exact hs.ge
  · rw [heq]
    exact h.feasible s hs

/-- A row in which an artificial is idle is left alone when another column becomes basic, and in no
row an artificial becomes basic. -/
theorem getElem?_pivot_iff (hr : t.rows[row]? = some r) (hne : r.entry col ≠ 0)
    (hcol : t.isArtificial col = false) {i : ℕ} (hi : t.IsIdleAt i) {s : BasicRow ℚ}
    (hart : t.isArtificial s.basic = true) :
    (t.pivot tolerance row col).rows[i]? = some s ↔ t.rows[i]? = some s := by
  rw [getElem?_rows_pivot tolerance hr]
  constructor
  · intro h
    obtain ⟨s', hs', rfl⟩ := Option.map_eq_some_iff.mp h
    by_cases hir : i = row
    · simp only [hir, if_true, hcol, Bool.false_eq_true] at hart
    · simp only [hir, if_false] at hart ⊢
      rw [Row.eliminate_of_entry_eq_zero tolerance (hi s' hs' hart col hcol)]
      exact hs'
  · intro hs
    have hzero : s.entry col = 0 := hi s hs hart col hcol
    have hir : i ≠ row := by
      rintro rfl
      obtain rfl : r = s := Option.some.inj (hr.symm.trans hs)
      exact hne hzero
    rw [hs, Option.map_some, if_neg hir, Row.eliminate_of_entry_eq_zero tolerance hzero]

theorem IsIdleAt.pivot {i : ℕ} (hi : t.IsIdleAt i) (hr : t.rows[row]? = some r)
    (hne : r.entry col ≠ 0) (hcol : t.isArtificial col = false) :
    (t.pivot tolerance row col).IsIdleAt i := by
  intro s' hs' hart j hj
  rw [isArtificial_pivot] at hart hj
  exact hi s' ((getElem?_pivot_iff hr hne hcol hi hart).mp hs') hart j hj

/-- In the row of the pivot no artificial is basic any more. -/
theorem isIdleAt_pivot (hr : t.rows[row]? = some r) (hcol : t.isArtificial col = false) :
    (t.pivot tolerance row col).IsIdleAt row := by
  intro s' hs' hart
  rw [getElem?_rows_pivot tolerance hr, hr, Option.map_some, if_pos rfl] at hs'
  obtain rfl := Option.some.inj hs'
  rw [isArtificial_pivot, hcol] at hart
  cases hart

/-- A tableau of a problem in which all basic artificials are idle, at most at a level. -/
structure IsSettled (p : Problem ℚ) (level : ℚ) (t : Tableau ℚ) : Prop extends t.IsFormOf p where
  idle : ∀ i, t.IsIdleAt i
  atMost : t.ArtificialsAtMost level

theorem IsSettled.of_rows_eq (h : t.IsSettled p level) (hc : u.columns = t.columns)
    (hrows : u.rows = t.rows) : u.IsSettled p level :=
  ⟨h.toIsFormOf.of_rows_eq hc hrows, fun i => (h.idle i).of_rows_eq hc hrows,
    h.atMost.of_rows_eq hc hrows⟩

/-- Pivots on columns that are not artificial leave idle artificials as they are. -/
theorem IsSettled.pivot (h : t.IsSettled p level) (hr : t.rows[row]? = some r)
    (hpos : 0 < r.entry col) (hcol : t.isArtificial col = false)
    (hlow : ∀ s ∈ t.rows, 0 < s.entry col →
      r.solution / r.entry col ≤ s.solution / s.entry col) :
    (t.pivot 0 row col).IsSettled p level := by
  refine ⟨h.toIsFormOf.pivot hr hpos hlow,
    fun i => (h.idle i).pivot hr hpos.ne' hcol, fun s' hs' hart => ?_⟩
  rw [isArtificial_pivot] at hart
  obtain ⟨i, hi⟩ := List.mem_iff_getElem?.mp hs'
  have hsame := (getElem?_pivot_iff hr hpos.ne' hcol (h.idle i) hart).mp hi
  exact h.atMost s' (List.mem_of_getElem? hsame) hart

end Tableau

open Tableau

namespace Goal

variable {goal : Goal ℚ} {d : Pivot ℚ} {p : Problem ℚ} {t : Tableau ℚ} {budget : ℕ} {level : ℚ}

/-- The leaving row has a positive entry in the entering column. -/
theorem IsStep.leaving_row (hd : goal.IsStep d) (h0 : 0 ≤ goal.tolerance) :
    ∃ r, d.before.rows[d.row]? = some r ∧ 0 < r.entry d.column := by
  have hleaving := hd.leaving
  rw [hd.ratios_eq] at hleaving
  obtain ⟨r, hr, hpos, -⟩ := leavingRow_some h0 hleaving
  exact ⟨r, hr, h0.trans_lt hpos⟩

theorem IsStep.columns_after (hd : goal.IsStep d) (row col : ℕ) :
    d.after.columns = (d.before.pivot 0 row col).columns := by
  rw [hd.after_eq, columns_pivot, columns_pivot]

theorem IsStep.isFormOf (hd : goal.IsStep d) (h0 : 0 ≤ goal.tolerance) (hk : d.KeepsRegion)
    (h : d.before.IsFormOf p) : d.after.IsFormOf p := by
  obtain ⟨r, hr, hpos⟩ := hd.leaving_row h0
  exact (h.pivot hr hpos (hk.lowest r hr)).of_rows_eq (hd.columns_after ..) hk.rows_eq

theorem IsStep.isSettled (hd : goal.IsStep d) (h0 : 0 ≤ goal.tolerance) (hk : d.KeepsRegion)
    (hall : ∀ j, goal.allowed j = true → p.standardForm.isArtificial j = false)
    (h : d.before.IsSettled p level) : d.after.IsSettled p level := by
  obtain ⟨r, hr, hpos⟩ := hd.leaving_row h0
  have hcol : d.before.isArtificial d.column = false := by
    rw [h.isArtificial_eq]
    exact hall _ (enteringColumn_some h0 hd.entering).2.1
  exact (h.pivot hr hpos hcol (hk.lowest r hr)).of_rows_eq (hd.columns_after ..) hk.rows_eq

theorem run_isFormOf (h0 : 0 ≤ goal.tolerance) (h : t.IsFormOf p)
    (hk : ∀ d ∈ (goal.run budget t).pivots, d.KeepsRegion) :
    (goal.run budget t).final.IsFormOf p :=
  run_invariant _ h fun d hd => (isStep_of_mem_run d hd).isFormOf h0 (hk d hd)

theorem run_isSettled (h0 : 0 ≤ goal.tolerance) (h : t.IsSettled p level)
    (hall : ∀ j, goal.allowed j = true → p.standardForm.isArtificial j = false)
    (hk : ∀ d ∈ (goal.run budget t).pivots, d.KeepsRegion) :
    (goal.run budget t).final.IsSettled p level :=
  run_invariant _ h fun d hd => (isStep_of_mem_run d hd).isSettled h0 (hk d hd) hall

end Goal

end LinearProgram
