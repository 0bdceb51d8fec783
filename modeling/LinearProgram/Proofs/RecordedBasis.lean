import LinearProgram.Proofs.Digits
import LinearProgram.Proofs.RecordInvariant
import LinearProgram.Proofs.RecordedSystem

/-! # The basis in a record

Under a tolerance up to one every recorded tableau has a basis. Pivots round small differences away,
but zeros stay zero and ones stay one, so basic columns stay unit columns. Pricing out leaves a
reduced cost within the tolerance in a basic column, and a column has to gain more to enter.
-/

namespace LinearProgram

section Names

theorem nodup_numberedNames (base : String) (n : ℕ) : (numberedNames base n).Nodup := by
  apply List.Nodup.map _ List.nodup_range
  intro i k h
  exact Nat.succ_injective (toString_injective ((String.append_right_inj base).mp h))

/-- Names with different first letters differ. -/
theorem disjoint_numberedNames {a b : String} {c d : Char} (ha : a.toList = [c])
    (hb : b.toList = [d]) (h : c ≠ d) (m n : ℕ) :
    (numberedNames a m).Disjoint (numberedNames b n) := by
  intro name hm hn
  obtain ⟨i, -, rfl⟩ := List.mem_map.mp hm
  obtain ⟨k, -, heq⟩ := List.mem_map.mp hn
  have hlists := congrArg String.toList heq
  simp only [String.toList_append, ha, hb, List.singleton_append, List.cons.injEq] at hlists
  exact h hlists.1.symm

theorem map_name_numberedColumns (base : String) (kind : ColumnKind) (n : ℕ) :
    (numberedColumns base kind n).map (·.name) = numberedNames base n := by
  rw [numberedColumns, List.map_map]
  exact List.map_id _

/-- Columns of the standard form have names of their own. -/
theorem Problem.nodup_standardNames {α : Type} [Scalar α] (p : Problem α) :
    (p.standardColumns.map (·.name)).Nodup := by
  simp only [standardColumns, List.map_append, map_name_numberedColumns]
  have hx : "x".toList = ['x'] := rfl
  have hs : "s".toList = ['s'] := rfl
  have he : "e".toList = ['e'] := rfl
  have ha : "a".toList = ['a'] := rfl
  simp only [List.nodup_append', List.disjoint_append_left, nodup_numberedNames, true_and]
  exact ⟨⟨disjoint_numberedNames hx hs (by decide) _ _,
      disjoint_numberedNames hx he (by decide) _ _, disjoint_numberedNames hs he (by decide) _ _⟩,
    ⟨disjoint_numberedNames hx ha (by decide) _ _, disjoint_numberedNames hs ha (by decide) _ _⟩,
    disjoint_numberedNames he ha (by decide) _ _⟩

end Names

namespace Tableau

/-- The tableau has the columns and as many rows as the standard form, it is in solved form, and
basic columns have reduced costs within the tolerance. -/
structure IsBasisOf (p : Problem ℚ) (tolerance : ℚ) (t : Tableau ℚ) : Prop extends t.IsSolved where
  columns_eq : t.columns = p.standardColumns
  rows_length : t.rows.length = p.constraintCount
  objective_width : t.objective.entries.length = t.columnCount
  priced : ∀ r ∈ t.rows, |t.objective.entry r.basic| ≤ tolerance

variable {p : Problem ℚ} {tolerance : ℚ} {t : Tableau ℚ} {r : BasicRow ℚ} {row col : ℕ}

theorem isBasisOf_standardForm (hl : ∀ c ∈ p.constraints, c.coefficients.length = p.variableCount)
    (h0 : 0 ≤ tolerance) : p.standardForm.IsBasisOf p tolerance := by
  refine ⟨p.isSolved_standardForm hl, rfl, p.length_rows_standardForm, List.length_replicate,
    fun r hr => ?_⟩
  have hzero : p.standardForm.objective.entry r.basic = 0 := by
    rw [Row.entry, List.getD_eq_getElem?_getD]
    exact List.getElem?_getD_replicate_default_eq ..
  rw [hzero, abs_zero]
  exact h0

namespace IsBasisOf

variable (h : t.IsBasisOf p tolerance)

include h

theorem setObjective (h0 : 0 ≤ tolerance) {costs : List ℚ} (hc : costs.length = t.columnCount) :
    (t.setObjective tolerance costs).IsBasisOf p tolerance := by
  have hw : (⟨costs.map (-·), 0⟩ : Row ℚ).entries.length = t.columnCount := by simpa using hc
  obtain ⟨hlen, hle⟩ :=
    abs_entry_foldl_priceOutRow_le h.toIsSolved h0 (fun _ hr => hr) hw
  exact ⟨⟨h.width, h.unit⟩, h.columns_eq, h.rows_length, hlen, fun r hr => hle r hr (Or.inl hr)⟩

/-- A pivot on an entry other than zero keeps a basis. -/
theorem pivot (h1 : tolerance ≤ 1) (hr : t.rows[row]? = some r) (hne : r.entry col ≠ 0) :
    (t.pivot tolerance row col).IsBasisOf p tolerance := by
  have hw : t.objective.entries.length = (r.scaleTo col).entries.length := by
    rw [Row.length_scaleTo, h.objective_width, h.width r (List.mem_of_getElem? hr)]
  have hobjective : (t.pivot tolerance row col).objective =
      t.objective.eliminate tolerance (r.scaleTo col) col := by
    simp only [Tableau.pivot, hr]
  refine ⟨h.toIsSolved.pivot_of_le_one h1 hr hne, (columns_pivot ..).trans h.columns_eq,
    (length_rows_pivot ..).trans h.rows_length, ?_, fun s' hs' => ?_⟩
  · rw [hobjective, Row.length_eliminate hw, columnCount_pivot, h.objective_width]
  · obtain ⟨i, hi⟩ := List.mem_iff_getElem?.mp hs'
    rw [getElem?_rows_pivot tolerance hr] at hi
    obtain ⟨s, hs, rfl⟩ := Option.map_eq_some_iff.mp hi
    rw [hobjective]
    by_cases hir : i = row
    · rw [if_pos hir]
      have hzero := Row.entry_eliminate_self hw tolerance col
      have h0 := (abs_nonneg _).trans (h.priced s (List.mem_of_getElem? hs))
      simp only [hzero, abs_zero]
      exact h0
    · rw [if_neg hir]
      have hle := h.priced s (List.mem_of_getElem? hs)
      obtain heq | heq := Row.entry_eliminate_of_zero hw tolerance
        (h.entry_scaleTo_basic hr hne hs hir) (h.basic_ne_of_entry_ne_zero hr hne hs hir)
      · simp only [heq]
        exact hle
      · simp only [heq]
        exact (Row.abs_snap_le tolerance _).trans hle

/-- A column that gains more than the tolerance is not basic. -/
theorem basic_ne_of_gain {sense : Sense} (hgain : tolerance < t.gain sense col) :
    ∀ r ∈ t.rows, r.basic ≠ col := by
  rintro r hr rfl
  have hle := h.priced r hr
  have habs : |t.gain sense r.basic| = |t.objective.entry r.basic| := by
    rw [gain_eq, reducedCost, abs_neg]
    cases sense <;> simp [Sense.sign]
  have := le_abs_self (t.gain sense r.basic)
  linarith

/-- What replaces an artificial is not basic. -/
theorem basic_ne_of_replacement (h0 : 0 ≤ tolerance) (hr : t.rows[row]? = some r)
    (hart : t.isArtificial r.basic = true) (hcol : t.replacement? tolerance r = some col) :
    ∀ s ∈ t.rows, s.basic ≠ col := by
  obtain ⟨hfree, hgt⟩ := replacement?_some hcol
  have hne : r.entry col ≠ 0 := abs_pos.mp (h0.trans_lt hgt)
  intro s hs
  obtain ⟨i, hi⟩ := List.mem_iff_getElem?.mp hs
  by_cases hir : i = row
  · subst hir
    obtain rfl := Option.some.inj (hr.symm.trans hi)
    rintro rfl
    rw [hart] at hfree
    cases hfree
  · exact h.basic_ne_of_entry_ne_zero hr hne hi hir

theorem nodup_columnNames : t.columnNames.Nodup := by
  rw [columnNames, h.columns_eq]
  exact p.nodup_standardNames

theorem getElem?_columnNames_basic (hr : r ∈ t.rows) :
    t.columnNames[r.basic]? = some (t.basicName r) := by
  have hlt : r.basic < t.columnNames.length := by
    rw [columnNames, List.length_map]
    exact h.basic_lt hr
  rw [basicName, columnName, List.getElem?_eq_getElem hlt, Option.getD_some]

/-- The name of a basic column is that of no other column. -/
theorem eq_basic_of_name (hr : r ∈ t.rows) (hcol : t.columnNames[col]? = some (t.basicName r)) :
    col = r.basic :=
  (List.getElem?_inj (List.getElem?_eq_some_iff.mp hcol).1 h.nodup_columnNames).mp
    (hcol.trans (h.getElem?_columnNames_basic hr).symm)

theorem nodup_basicVariables : t.basicVariables.Nodup := by
  rw [List.nodup_iff_getElem?_ne_getElem?]
  intro i k hik hk heq
  rw [basicVariables, List.length_map] at hk
  obtain ⟨s, hs⟩ : ∃ s, t.rows[k]? = some s := ⟨_, List.getElem?_eq_getElem hk⟩
  obtain ⟨r, hr⟩ : ∃ r, t.rows[i]? = some r := ⟨_, List.getElem?_eq_getElem (hik.trans hk)⟩
  rw [basicVariables, List.getElem?_map, List.getElem?_map, hr, hs, Option.map_some,
    Option.map_some, Option.some.injEq] at heq
  -- One column would be basic in both rows.
  have hcol := h.getElem?_columnNames_basic (List.mem_of_getElem? hr)
  rw [heq] at hcol
  have hbasic := h.eq_basic_of_name (List.mem_of_getElem? hs) hcol
  exact hik.ne (h.index_eq_of_basic_eq hr hs hbasic)

/-- A column that is not basic has a name that is not among the basic ones. -/
theorem columnName_notMem (hcol : ∀ r ∈ t.rows, r.basic ≠ col) {name : String}
    (hname : t.columnNames[col]? = some name) : name ∉ t.basicVariables := by
  intro hmem
  obtain ⟨r, hr, rfl⟩ := List.mem_map.mp hmem
  exact hcol r hr (h.eq_basic_of_name hr hname).symm

end IsBasisOf

end Tableau

namespace Snapshot

/-- Every row has one number for each column and a solution entry, and each constraint row has a
basic variable of its own, whose column has a one in this row and zeros in the others. -/
structure HasBasis (snapshot : Snapshot ℚ) : Prop where
  width : ∀ row ∈ snapshot.grid, row.length = snapshot.columns.length + 1
  nodup_columns : snapshot.columns.Nodup
  length_eq : snapshot.basicVariables.length = snapshot.constraintRows.length
  nodup : snapshot.basicVariables.Nodup
  subset : snapshot.basicVariables ⊆ snapshot.columns
  unit : ∀ {i k col : ℕ} {name : String} {row : List ℚ}, snapshot.basicVariables[i]? = some name →
    snapshot.columns[col]? = some name → snapshot.constraintRows[k]? = some row →
    row[col]? = some (if i = k then 1 else 0)

/-- The column that enters a snapshot is not basic in the snapshot before it. -/
def EntersFrom (before after : Snapshot ℚ) : Prop :=
  ∃ col name, after.enteringColumn = some col ∧ after.columns[col]? = some name ∧
    before.columns[col]? = some name ∧ name ∉ before.basicVariables

variable {snapshot : Snapshot ℚ} {t : Tableau ℚ} {p : Problem ℚ} {tolerance : ℚ}

theorem Shows.hasBasis (hs : snapshot.Shows t) (h : t.IsBasisOf p tolerance) :
    snapshot.constraintRows.length = p.constraintCount ∧ snapshot.HasBasis := by
  have hrows : snapshot.constraintRows = t.rows.map (·.values) := constraintRows_of_view hs.view_eq
  have hrect : t.IsRectangular := ⟨h.width, h.objective_width⟩
  refine ⟨by rw [hrows, List.length_map, h.rows_length], ?_, ?_, ?_, ?_, ?_, ?_⟩
  · rw [grid_of_view hs.view_eq, hs.columns_eq, Tableau.columnNames, List.length_map]
    exact fun row hrow => hrect.length_of_mem_grid hrow
  · rw [hs.columns_eq]
    exact h.nodup_columnNames
  · rw [hs.basic_eq, hrows, Tableau.basicVariables, List.length_map, List.length_map]
  · rw [hs.basic_eq]
    exact h.nodup_basicVariables
  · rw [hs.basic_eq, hs.columns_eq]
    intro name hname
    obtain ⟨r, hr, rfl⟩ := List.mem_map.mp hname
    exact List.mem_of_getElem? (h.getElem?_columnNames_basic hr)
  · intro i k col name row hi hcol hk
    rw [hs.basic_eq, Tableau.basicVariables, List.getElem?_map] at hi
    obtain ⟨r, hr, rfl⟩ := Option.map_eq_some_iff.mp hi
    rw [hrows, List.getElem?_map] at hk
    obtain ⟨s, hsk, rfl⟩ := Option.map_eq_some_iff.mp hk
    rw [hs.columns_eq] at hcol
    obtain rfl := h.eq_basic_of_name (List.mem_of_getElem? hr) hcol
    have hlt : r.basic < s.entries.length := by
      rw [h.width s (List.mem_of_getElem? hsk)]
      exact h.basic_lt (List.mem_of_getElem? hr)
    rw [Row.values, List.getElem?_append_left hlt, List.getElem?_eq_getElem hlt,
      ← h.unit hr hsk, Row.entry, List.getD_eq_getElem _ _ hlt]

theorem entersFrom_of_basic_ne {before after : Snapshot ℚ} {u : Tableau ℚ} {col : ℕ}
    (hs : before.Shows t) (hs' : after.Shows u) (hc : u.columns = t.columns)
    (h : t.IsBasisOf p tolerance) (hcol : col < t.columnCount)
    (hne : ∀ r ∈ t.rows, r.basic ≠ col) (henter : after.enteringColumn = some col) :
    before.EntersFrom after := by
  have hlt : col < t.columnNames.length := by rwa [Tableau.columnNames, List.length_map]
  have hname := List.getElem?_eq_getElem hlt
  refine ⟨col, t.columnNames[col], henter, ?_, ?_, ?_⟩
  · rw [hs'.columns_eq, Tableau.columnNames, hc]
    exact hname
  · rw [hs.columns_eq]
    exact hname
  · rw [hs.basic_eq]
    exact h.columnName_notMem hne hname

end Snapshot

section Steps

variable {p : Problem ℚ} {tolerance : ℚ} {d : Pivot ℚ} {e : DriveOut ℚ}

theorem Goal.IsStep.isBasisOf {goal : Goal ℚ} (hd : goal.IsStep d) (h0 : 0 ≤ goal.tolerance)
    (h1 : goal.tolerance ≤ 1) (h : d.before.IsBasisOf p goal.tolerance) :
    d.after.IsBasisOf p goal.tolerance := by
  obtain ⟨r, hr, hpos⟩ := hd.leaving_row h0
  rw [hd.after_eq]
  exact h.pivot h1 hr hpos.ne'

theorem DriveOut.IsStep.isBasisOf (he : e.IsStep tolerance) (h0 : 0 ≤ tolerance)
    (h1 : tolerance ≤ 1) (h : e.before.IsBasisOf p tolerance) : e.after.IsBasisOf p tolerance := by
  obtain ⟨r, hr, -, hcol⟩ := he.artificial
  rw [he.after_eq]
  cases hsome : e.column with
  | none => exact h
  | some col =>
    rw [hsome] at hcol
    exact h.pivot h1 hr (abs_pos.mp (h0.trans_lt (Tableau.replacement?_some hcol).2))

end Steps

namespace SimplexSettings

variable {s : SimplexSettings ℚ} {p : Problem ℚ} {phase : Option ℕ} {leg : Leg ℚ} {d : Pivot ℚ}
  {e : DriveOut ℚ} {used : ℕ}
  (hl : ∀ c ∈ p.constraints, c.coefficients.length = p.variableCount) (h0 : 0 ≤ s.tolerance)
  (h1 : s.tolerance ≤ 1)

section Leg

variable (hleg : s.IsLeg p phase leg) (h : leg.loaded.IsBasisOf p s.tolerance)

include h0 hleg h

theorem IsLeg.isBasisOf_start : leg.start.IsBasisOf p s.tolerance := by
  rw [Leg.start, hleg.tolerance_eq]
  exact h.setObjective h0 hleg.length_costs

include h1

omit h in
theorem IsLeg.isBasisOf_step (hd : d ∈ leg.stage.pivots)
    (hbefore : d.before.IsBasisOf p s.tolerance) : d.after.IsBasisOf p s.tolerance := by
  rw [← hleg.tolerance_eq] at h0 h1 hbefore ⊢
  exact (Goal.isStep_of_mem_run d hd).isBasisOf h0 h1 hbefore

theorem IsLeg.isBasisOf_before (hd : d ∈ leg.stage.pivots) :
    d.before.IsBasisOf p s.tolerance :=
  Goal.run_invariant_before (Tableau.IsBasisOf p s.tolerance) (hleg.isBasisOf_start h0 h)
    (fun _ hd => hleg.isBasisOf_step h0 h1 hd) d hd

theorem IsLeg.isBasisOf_final : leg.stage.final.IsBasisOf p s.tolerance :=
  Goal.run_invariant (Tableau.IsBasisOf p s.tolerance) (hleg.isBasisOf_start h0 h)
    fun _ hd => hleg.isBasisOf_step h0 h1 hd

end Leg

include hl h0 h1

/-- Artificials are driven out of bases, and bases remain. -/
theorem isBasisOf_driveOutPass (hused : s.bothPhasesFrom? p = some used) :
    (∀ e ∈ s.driveOutPass p used, e.before.IsBasisOf p s.tolerance) ∧
      (s.feasibleBasis p used).IsBasisOf p s.tolerance := by
  have hfinal := (IsLeg.first hused).isBasisOf_final h0 h1
    (Tableau.isBasisOf_standardForm hl h0)
  exact Tableau.driveOut_invariant _ hfinal fun e he =>
    (Tableau.isStep_of_mem_driveOut e he).isBasisOf h0 h1

theorem IsLeg.isBasisOf_loaded (hleg : s.IsLeg p phase leg) :
    leg.loaded.IsBasisOf p s.tolerance := by
  have hform := Tableau.isBasisOf_standardForm hl h0
  cases hleg with
  | penalty _ => exact hform
  | first _ => exact hform
  | second hused _ => exact (isBasisOf_driveOutPass hl h0 h1 hused).2
  | direct _ _ => exact hform

theorem isBasisOf_driveOuts (he : e ∈ s.driveOuts p) : e.before.IsBasisOf p s.tolerance := by
  obtain ⟨used, hused, -, hpass⟩ := mem_driveOuts_iff.mp he
  exact (isBasisOf_driveOutPass hl h0 h1 hused).1 e hpass

theorem hasBasis_of_mem_tableaus : ∀ snapshot ∈ (s.run p).solution.tableaus,
    snapshot.constraintRows.length = p.constraintCount ∧ snapshot.HasBasis := by
  apply forall_tableaus
  · intro phase leg iteration description hleg
    exact (leg.start.shows_snapshot ..).hasBasis
      (hleg.isBasisOf_start h0 (hleg.isBasisOf_loaded hl h0 h1))
  · intro phase leg d iteration hleg hd
    have hloaded := hleg.isBasisOf_loaded hl h0 h1
    exact Snapshot.Shows.hasBasis ⟨rfl, rfl, rfl⟩ (hleg.isBasisOf_step h0 h1 hd
      (hleg.isBasisOf_before h0 h1 hloaded hd))
  · intro e col iteration he _
    exact Snapshot.Shows.hasBasis ⟨rfl, rfl, rfl⟩ ((isStep_of_mem_driveOuts he).isBasisOf h0 h1
      (isBasisOf_driveOuts hl h0 h1 he))

/-- What enters, in a stage or to replace an artificial, is not basic at that moment. -/
theorem follows_entersFrom : Snapshot.Follows Snapshot.EntersFrom (s.run p).solution.tableaus := by
  apply follows_tableaus
  · intro phase leg d a iteration hleg hd ha
    have hstep := Goal.isStep_of_mem_run d hd
    have hbefore := hleg.isBasisOf_before h0 h1 (hleg.isBasisOf_loaded hl h0 h1) hd
    obtain ⟨hcol, -, hgain⟩ :=
      Tableau.enteringColumn_some (hleg.tolerance_eq ▸ h0) hstep.entering
    rw [hleg.tolerance_eq] at hgain
    refine Snapshot.entersFrom_of_basic_ne ha ⟨rfl, rfl, rfl⟩ ?_ hbefore hcol
      (hbefore.basic_ne_of_gain hgain) rfl
    rw [hstep.after_eq, Tableau.columns_pivot]
  · intro e col a iteration he hsome ha
    have hstep := isStep_of_mem_driveOuts he
    have hbefore := isBasisOf_driveOuts hl h0 h1 he
    obtain ⟨r, hr, hart, hcol⟩ := hstep.artificial
    rw [hsome] at hcol
    have hlt : col < e.before.columnCount := by
      rw [← hbefore.width r (List.mem_of_getElem? hr)]
      exact Row.lt_length_of_entry_ne_zero
        (abs_pos.mp (h0.trans_lt (Tableau.replacement?_some hcol).2))
    refine Snapshot.entersFrom_of_basic_ne ha ⟨rfl, rfl, rfl⟩ ?_ hbefore hlt
      (hbefore.basic_ne_of_replacement h0 hr hart hcol) rfl
    rw [hstep.after_eq, hsome, Tableau.columns_pivot]

omit hl

/-- Every recorded tableau has one basic variable for each constraint, different ones that are
columns of the tableau and unit columns, and no variable enters that is basic at that moment. -/
theorem solve_keeps_basis (hv : p.validate = .ok ()) : ∃ solution, s.solve p = .ok solution ∧
    (∀ snapshot ∈ solution.tableaus,
      snapshot.constraintRows.length = p.constraintCount ∧ snapshot.HasBasis) ∧
    Snapshot.Follows Snapshot.EntersFrom solution.tableaus := by
  have hl := p.length_of_validate hv
  exact ⟨_, solve_of_validate hv, hasBasis_of_mem_tableaus hl h0 h1,
    follows_entersFrom hl h0 h1⟩

omit h0 h1 in
/-- With the usual tolerance, over two stages and a replaced artificial. -/
theorem solve_keeps_basis_crossingProblem : crossingProblem.validate = .ok () ∧
    ∃ solution, (⟨none, 1e-9, .bigM, -1⟩ : SimplexSettings ℚ).solve crossingProblem =
        .ok solution ∧
      solution.tableaus.map (·.enteringColumn) = [none, some 1, none, some 0, some 1, none] ∧
      ∀ snapshot ∈ solution.tableaus, snapshot.HasBasis := by
  have hv : crossingProblem.validate = .ok () := by decide +kernel
  obtain ⟨solution, hsolve, hall, -⟩ :=
    solve_keeps_basis (s := ⟨none, 1e-9, .bigM, -1⟩) (by norm_num) (by norm_num) hv
  obtain ⟨-, rfl⟩ := validate_of_solve hsolve
  exact ⟨hv, _, hsolve, by decide +kernel, fun snapshot h => (hall snapshot h).2⟩

end SimplexSettings

end LinearProgram
