import LinearProgram.Proofs.Checked.Table

/-! # Checked pivoting

Loading an objective, choosing a pivot and the exchange of a basic column on a table, entry by
entry. On the table of a tableau of the right shape no step has a fault: a ratio is only taken where
the entry exceeds the tolerance, and a pivot is only divided by an entry that is not zero.
-/

namespace LinearProgram

namespace Checked

namespace Table

variable {α : Type} [Scalar α]

/-- Eliminates the basic column of a row from an objective row. -/
def priceOutRow (tolerance : α) (g : Table α) (objective : List α) (i : ℕ) :
    Except Fault (List α) := do
  let factor ← read objective (← read g.basics i)
  if tolerance < Scalar.abs factor then
    let row ← read g.data i
    update (fun j x => do .ok (x - factor * (← read row j))) row.length objective
  else .ok objective

/-- Loads costs, one per column, and prices out the current basis row by row. -/
def setObjective (tolerance : α) (costs : List α) (g : Table α) : Except Fault (Table α) := do
  let m ← g.rowCount
  let loaded ← update (fun j _ => do .ok (-(← read costs j))) costs.length (← read g.data m)
  let cleared ← write loaded g.columns.length 0
  let priced ← (List.range m).foldlM (g.priceOutRow tolerance) cleared
  .ok { g with data := ← write g.data m priced }

/-- How much a unit of a column improves the objective. -/
def gain (sense : Sense) (g : Table α) (j : ℕ) : Except Fault α := do
  match sense with
  | .maximize => .ok (-(← g.reducedCost j))
  | .minimize => g.reducedCost j

/-- Compares a column with the best one so far. -/
def compare (tolerance : α) (sense : Sense) (allowed : ℕ → Except Fault Bool) (g : Table α)
    (best : Option (ℕ × α)) (j : ℕ) : Except Fault (Option (ℕ × α)) := do
  if ← allowed j then .ok (Tableau.betterColumn tolerance best (j, ← g.gain sense j))
  else .ok best

def enteringColumn (tolerance : α) (sense : Sense) (allowed : ℕ → Except Fault Bool)
    (g : Table α) : Except Fault (Option ℕ) := do
  let best ← (List.range g.columns.length).foldlM (g.compare tolerance sense allowed) none
  .ok (best.map (·.1))

def ratio (tolerance : α) (g : Table α) (col i : ℕ) : Except Fault (Option α) := do
  let x ← g.entry i col
  if tolerance < x then .ok (some (← divide (← g.basicValue i) x)) else .ok none

def ratios (tolerance : α) (g : Table α) (col : ℕ) : Except Fault (List (Option α)) := do
  (List.range (← g.rowCount)).mapM (g.ratio tolerance col)

/-- Clears the pivot column from a row, given the scaled pivot row. -/
def eliminate (tolerance : α) (width : ℕ) (pivotRow : List α) (col : ℕ) (xs : List α) :
    Except Fault (List α) := do
  let factor ← read xs col
  if factor == 0 then .ok xs
  else
    let cleared ← update
      (fun j x => do .ok (Row.snap tolerance (x - factor * (← read pivotRow j)))) width xs
    write cleared col 0

/-- Makes a column basic in a row. -/
def pivot (tolerance : α) (g : Table α) (row col : ℕ) : Except Fault (Table α) := do
  let width := (← read g.data 0).length
  let basics ← write g.basics row col
  let element ← g.entry row col
  let divided ← update (fun _ x => divide x element) width (← read g.data row)
  let pivotRow ← write divided col 1
  let data ← update
    (fun i xs => if i = row then .ok xs else eliminate tolerance width pivotRow col xs)
    g.data.length (← write g.data row pivotRow)
  .ok { g with data := data, basics := basics }

end Table

end Checked

namespace Tableau

variable {t : Tableau ℚ} {r : BasicRow ℚ} {row col : ℕ} {tolerance : ℚ}

theorem IsShaped.isRectangular (h : t.IsShaped) : t.IsRectangular :=
  ⟨h.width, h.objective_width⟩

theorem IsShaped.setObjective (h : t.IsShaped) {costs : List ℚ}
    (hc : costs.length = t.columnCount) : (t.setObjective tolerance costs).IsShaped :=
  ⟨h.width, (h.isRectangular.setObjective hc).objective_width, h.basic_lt⟩

theorem IsShaped.pivot (h : t.IsShaped) (hr : t.rows[row]? = some r) (hcol : col < t.columnCount) :
    (t.pivot tolerance row col).IsShaped := by
  have hrect := h.isRectangular.pivot tolerance row col
  refine ⟨hrect.width, hrect.objective_width, fun s' hs' => ?_⟩
  obtain ⟨i, hi⟩ := List.mem_iff_getElem?.mp hs'
  rw [getElem?_rows_pivot tolerance hr] at hi
  obtain ⟨s, hs, rfl⟩ := Option.map_eq_some_iff.mp hi
  rw [columnCount_pivot]
  split
  · exact hcol
  · exact h.basic_lt s (List.mem_of_getElem? hs)

end Tableau

namespace Checked

theorem values_subtract {r s : Row ℚ} (h : r.entries.length = s.entries.length) (f : ℚ) :
    (r.subtract f s).values = List.zipWith (fun x y => x - f * y) r.values s.values := by
  rw [Row.values, Row.values, Row.values, List.zipWith_append h]
  rfl

namespace Table

variable {t : Tableau ℚ} {r : BasicRow ℚ} {i j row col n : ℕ} {tolerance : ℚ}

theorem table_objective (t : Tableau ℚ) (objective : Row ℚ) :
    { t with objective := objective }.table =
      { t.table with data := t.table.data.set t.rows.length objective.values } := by
  simp [Tableau.table, Tableau.grid, Tableau.count]

/-- A row of the table belongs to a row of the tableau or to its objective row. -/
theorem exists_of_getElem?_data {xs : List ℚ} (hx : t.table.data[i]? = some xs) :
    (∃ r, t.rows[i]? = some r ∧ xs = r.values) ∨
      i = t.rows.length ∧ xs = t.objective.values := by
  have hi : i < t.rows.length + 1 := length_data t ▸ (List.getElem?_eq_some_iff.mp hx).1
  by_cases hlt : i < t.rows.length
  · obtain ⟨r, hr⟩ := exists_row hlt
    exact Or.inl ⟨r, hr, Option.some.inj (hx.symm.trans (getElem?_data hr))⟩
  · obtain rfl : i = t.rows.length := by omega
    exact Or.inr ⟨rfl, Option.some.inj (hx.symm.trans (getElem?_data_last t))⟩

theorem eliminate_eq_ok {r s : Row ℚ} (hr : r.entries.length = n) (hs : s.entries.length = n)
    (hcol : col < n) : eliminate tolerance (n + 1) s.values col r.values =
      .ok (r.eliminate tolerance s col).values := by
  have hlen : ∀ {x : Row ℚ}, x.entries.length = n → x.values.length = n + 1 :=
    fun hx => by rw [Row.length_values, hx]
  have hw : ((r.subtract (r.entry col) s).map (Row.snap tolerance)).entries.length = n := by
    rw [Row.length_map, Row.length_subtract (hr.trans hs.symm), hr]
  rw [eliminate, read_eq_ok (Row.getElem?_values (hr.symm ▸ hcol)), ok_bind, Row.eliminate]
  split
  · rfl
  · rw [update_zipWith_eq_ok (f := fun x y => Row.snap tolerance (x - r.entry col * y)) (hlen hr)
      (hlen hs), ok_bind, values_set (hw.symm ▸ hcol), values_map,
      values_subtract (hr.trans hs.symm), List.map_zipWith]
    refine write_eq_ok ?_ 0
    rw [List.length_zipWith, hlen hr, hlen hs]
    omega

/-- Costs take the place of the entries of a row, in front of its solution entry. -/
theorem load_eq_ok {costs : List ℚ} {row : Row ℚ} (hc : costs.length = n)
    (hw : row.entries.length = n) :
    update (fun j _ => do .ok (-(← read costs j))) costs.length row.values =
      .ok (costs.map (-·) ++ [row.solution]) := by
  have hdrop : row.values.drop costs.length = [row.solution] := by
    rw [hc, ← hw]
    exact List.drop_left
  rw [update_eq_ok (List.length_map _) (by rw [Row.length_values]; omega), hdrop]
  intro j x y hx hy
  rw [List.getElem?_map] at hy
  obtain ⟨c, hcost, rfl⟩ := Option.map_eq_some_iff.mp hy
  rw [read_eq_ok hcost, ok_bind]

section Shaped

variable (h : t.IsShaped)

include h

theorem priceOutRow_eq_ok (hr : t.rows[i]? = some r) {objective : Row ℚ}
    (hw : objective.entries.length = t.columnCount) :
    t.table.priceOutRow tolerance objective.values i =
      .ok (Tableau.priceOutRow tolerance objective r).values := by
  have hwidth : objective.entries.length = r.entries.length :=
    hw.trans (h.width r (List.mem_of_getElem? hr)).symm
  rw [priceOutRow, read_basics_eq_ok hr, ok_bind,
    read_eq_ok (Row.getElem?_values (hw.symm ▸ basic_lt h hr)), ok_bind, Tableau.priceOutRow]
  split
  · rw [read_eq_ok (getElem?_data hr), ok_bind, values_subtract hwidth]
    exact update_zipWith_eq_ok (by rw [Row.length_values, Row.length_values, hwidth]) rfl
  · rfl

/-- The rows are priced out one after the other. -/
theorem priceOut_eq_ok {objective : Row ℚ} (hw : objective.entries.length = t.columnCount) :
    (List.range t.rows.length).foldlM (t.table.priceOutRow tolerance) objective.values =
      .ok (t.rows.foldl (Tableau.priceOutRow tolerance) objective).values := by
  have hrow : ∀ i < t.rows.length, t.table.priceOutRow tolerance
      ((t.rows.take i).foldl (Tableau.priceOutRow tolerance) objective).values i =
        .ok ((t.rows.take (i + 1)).foldl (Tableau.priceOutRow tolerance) objective).values := by
    intro i hi
    obtain ⟨r, hr⟩ := exists_row hi
    rw [List.take_add_one, hr, Option.toList_some, List.foldl_append]
    exact priceOutRow_eq_ok h hr
      (Tableau.length_foldl_priceOutRow h.isRectangular (fun _ => List.mem_of_mem_take) hw)
  have hloop := loop_eq_ok (fun i =>
    ((t.rows.take i).foldl (Tableau.priceOutRow tolerance) objective).values) hrow
  rwa [List.take_length] at hloop

theorem setObjective_eq_ok {costs : List ℚ} (hc : costs.length = t.columnCount) :
    t.table.setObjective tolerance costs = .ok (t.setObjective tolerance costs).table := by
  have hlen : (costs.map (-·)).length = t.columnCount := (List.length_map _).trans hc
  have hcleared : write (costs.map (-·) ++ [t.objective.solution]) t.columnCount 0 =
      .ok (⟨costs.map (-·), 0⟩ : Row ℚ).values :=
    write_append_right (i := 0) hlen.symm rfl
  rw [setObjective, rowCount_eq_ok, ok_bind, read_eq_ok (getElem?_data_last t), ok_bind,
    load_eq_ok hc h.objective_width, ok_bind]
  refine (bind_of_eq hcleared _).trans ((bind_of_eq (priceOut_eq_ok h hlen) _).trans ?_)
  rw [write_eq_ok (by rw [length_data]; omega), ok_bind]
  exact congrArg _ (table_objective t _).symm

theorem gain_eq_ok (sense : Sense) (hj : j < t.columnCount) :
    t.table.gain sense j = .ok (t.gain sense j) := by
  cases sense with
  | maximize => rw [gain, reducedCost_eq_ok h hj]; rfl
  | minimize => exact reducedCost_eq_ok h hj

theorem enteringColumn_eq_ok {sense : Sense} {allowed : ℕ → Except Fault Bool} {goal : ℕ → Bool}
    (hall : ∀ j < t.columnCount, allowed j = .ok (goal j)) :
    t.table.enteringColumn tolerance sense allowed =
      .ok (t.enteringColumn tolerance sense goal) := by
  have hcolumn : ∀ j < t.columnCount, t.table.compare tolerance sense allowed
      ((((List.range j).filter goal).map fun col => (col, t.gain sense col)).foldl
        (Tableau.betterColumn tolerance) none) j =
      .ok ((((List.range (j + 1)).filter goal).map fun col => (col, t.gain sense col)).foldl
        (Tableau.betterColumn tolerance) none) := by
    intro j hj
    rw [compare, hall j hj, ok_bind, gain_eq_ok h sense hj, ok_bind, List.range_succ,
      List.filter_append, List.map_append, List.foldl_append]
    cases hg : goal j <;> simp [hg]
  have hloop := loop_eq_ok (fun j =>
    (((List.range j).filter goal).map fun col => (col, t.gain sense col)).foldl
      (Tableau.betterColumn tolerance) none) hcolumn
  exact bind_of_eq hloop _

theorem ratios_eq_ok (h0 : 0 ≤ tolerance) (hcol : col < t.columnCount) :
    t.table.ratios tolerance col = .ok (t.ratios tolerance col) := by
  rw [ratios, rowCount_eq_ok, ok_bind]
  refine mapM_range_eq_ok fun i r hr => ?_
  rw [ratio, entry_eq_ok h hr hcol, ok_bind, basicValue_eq_ok h hr, ok_bind]
  split
  · next hlt => rw [divide_eq_ok (h0.trans_lt hlt).ne', ok_bind]
  · rfl

theorem length_of_getElem?_data {xs : List ℚ} (hx : t.table.data[i]? = some xs) :
    xs.length = t.columnCount + 1 := by
  obtain ⟨r, hr, rfl⟩ | ⟨-, rfl⟩ := exists_of_getElem?_data hx
  · rw [Row.length_values, h.width r (List.mem_of_getElem? hr)]
  · rw [Row.length_values, h.objective_width]

theorem clear_eq_ok (hr : t.rows[row]? = some r) (hcol : col < t.columnCount) :
    update (fun i xs => if i = row then .ok xs
        else eliminate tolerance (t.columnCount + 1) (r.scaleTo col).values col xs)
      t.table.data.length (t.table.data.set row (r.scaleTo col).values) =
        .ok (t.pivot tolerance row col).table.data := by
  have hrow : row < t.rows.length := (List.getElem?_eq_some_iff.mp hr).1
  have hscaled : (r.scaleTo col).entries.length = t.columnCount := by
    rw [Row.length_scaleTo, h.width r (List.mem_of_getElem? hr)]
  refine update_all_eq_ok (by rw [length_data, length_data, Tableau.length_rows_pivot])
    (List.length_set ..) fun i xs ys hx hy => ?_
  by_cases hir : i = row
  · subst hir
    rw [List.getElem?_set_self (by rw [length_data]; omega)] at hx
    have hpivot : (t.pivot tolerance i col).rows[i]? = some ⟨r.scaleTo col, col⟩ := by
      rw [Tableau.getElem?_rows_pivot tolerance hr, hr, Option.map_some, if_pos rfl]
    rw [getElem?_data hpivot] at hy
    rw [if_pos rfl, ← Option.some.inj hx, ← Option.some.inj hy]
  · rw [List.getElem?_set_ne (Ne.symm hir)] at hx
    rw [if_neg hir]
    obtain ⟨s, hs, rfl⟩ | ⟨rfl, rfl⟩ := exists_of_getElem?_data hx
    · have hpivot : (t.pivot tolerance row col).rows[i]? =
          some ⟨s.eliminate tolerance (r.scaleTo col) col, s.basic⟩ := by
        rw [Tableau.getElem?_rows_pivot tolerance hr, hs, Option.map_some, if_neg hir]
      rw [getElem?_data hpivot] at hy
      rw [← Option.some.inj hy]
      exact eliminate_eq_ok (h.width s (List.mem_of_getElem? hs)) hscaled hcol
    · have hlast := getElem?_data_last (t.pivot tolerance row col)
      rw [Tableau.length_rows_pivot] at hlast
      rw [← Option.some.inj (hlast.symm.trans hy), Tableau.pivot, hr]
      exact eliminate_eq_ok h.objective_width hscaled hcol

omit h in
theorem basics_pivot (tolerance : ℚ) (hr : t.rows[row]? = some r) (col : ℕ) :
    (t.pivot tolerance row col).table.basics = t.table.basics.set row col := by
  simp [Tableau.table, Tableau.pivot, hr, List.map_set, Function.comp_def]

theorem pivot_eq_ok (hr : t.rows[row]? = some r) (hcol : col < t.columnCount)
    (hne : r.entry col ≠ 0) :
    t.table.pivot tolerance row col = .ok (t.pivot tolerance row col).table := by
  have hrow : row < t.rows.length := (List.getElem?_eq_some_iff.mp hr).1
  have hw := h.width r (List.mem_of_getElem? hr)
  have hdata : row < t.table.data.length := by rw [length_data]; omega
  obtain ⟨first, hfirst⟩ : ∃ first, t.table.data[0]? = some first :=
    ⟨_, List.getElem?_eq_getElem (by omega)⟩
  have hdivided : update (fun _ x => divide x (r.entry col)) (t.columnCount + 1) r.values =
      .ok (r.map (· / r.entry col)).values := by
    rw [values_map]
    refine update_all_eq_ok (by rw [List.length_map, Row.length_values, hw])
      (by rw [Row.length_values, hw]) fun j x y hx hy => ?_
    rw [List.getElem?_map, hx] at hy
    obtain rfl := Option.some.inj hy
    exact divide_eq_ok hne
  have hscaled : write (r.map (· / r.entry col)).values col 1 = .ok (r.scaleTo col).values := by
    have hlt : col < (r.map (· / r.entry col)).entries.length := by rwa [Row.length_map, hw]
    rw [write_eq_ok (by rw [Row.length_values]; omega), Row.scaleTo, values_set hlt]
  rw [pivot, read_eq_ok hfirst, ok_bind, write_eq_ok (by simpa [Tableau.table] using hrow), ok_bind,
    entry_eq_ok h hr hcol, ok_bind, read_eq_ok (getElem?_data hr), ok_bind,
    length_of_getElem?_data h hfirst, hdivided, ok_bind, hscaled, ok_bind, write_eq_ok hdata,
    ok_bind, clear_eq_ok h hr hcol, ok_bind, ← basics_pivot tolerance hr]
  simp [Tableau.table, Tableau.count]

end Shaped

end Table

end Checked

end LinearProgram
