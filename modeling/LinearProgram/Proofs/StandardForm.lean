import LinearProgram.Proofs.Basis
import LinearProgram.Simplex.Solve

/-! # The standard form

Its columns lie in four blocks by kind, and every row adds its own slack, surplus and artificial to
the linear form of its constraint. It starts in solved form with a feasible basic solution.
-/

namespace LinearProgram

section Columns

variable {kind : ColumnKind}

theorem columnsNeeded_append (kind : ColumnKind) (before rest : List (Constraint ℚ)) :
    columnsNeeded kind (before ++ rest) = columnsNeeded kind before + columnsNeeded kind rest := by
  induction before with
  | nil => simp [columnsNeeded]
  | cons c before ih =>
    simp only [columnsNeeded, List.cons_append, List.foldr_cons] at ih ⊢
    omega

/-- A row that brings a column of a kind is counted in front of every later row. -/
theorem columnsNeeded_take_lt {rows : List (Constraint ℚ)} {i k : ℕ} {c : Constraint ℚ}
    (hc : rows[i]? = some c) (hk : c.relation.columns kind ≠ 0) (hik : i < k) :
    columnsNeeded kind (rows.take i) < columnsNeeded kind (rows.take k) := by
  obtain ⟨hi, rfl⟩ := List.getElem?_eq_some_iff.mp hc
  obtain ⟨d, rfl⟩ := Nat.exists_eq_add_of_lt hik
  have hsplit : rows.take (i + d + 1) = rows.take i ++ rows[i] :: (rows.drop (i + 1)).take d := by
    rw [show i + d + 1 = i + (d + 1) by omega, List.take_add, List.drop_eq_getElem_cons hi,
      List.take_succ_cons]
  rw [hsplit, columnsNeeded_append]
  have hpos : 0 < columnsNeeded kind (rows[i] :: (rows.drop (i + 1)).take d) := by
    simp only [columnsNeeded, List.foldr_cons]
    omega
  omega

theorem columnsNeeded_take_lt_all {rows : List (Constraint ℚ)} {i : ℕ} {c : Constraint ℚ}
    (hc : rows[i]? = some c) (hk : c.relation.columns kind ≠ 0) :
    columnsNeeded kind (rows.take i) < columnsNeeded kind rows := by
  have h := columnsNeeded_take_lt hc hk (List.getElem?_eq_some_iff.mp hc).1
  rwa [List.take_length] at h

/-- A list with one value for every row that brings a column of a kind. -/
def ownValues (kind : ColumnKind) (f : Constraint ℚ → ℚ) (rows : List (Constraint ℚ)) : List ℚ :=
  (rows.filter fun c => c.relation.columns kind ≠ 0).map f

theorem length_ownValues (kind : ColumnKind) (f : Constraint ℚ → ℚ) (rows : List (Constraint ℚ)) :
    (ownValues kind f rows).length = columnsNeeded kind rows := by
  have hone : ∀ c : Constraint ℚ, c.relation.columns kind = 0 ∨ c.relation.columns kind = 1 := by
    intro c
    rcases c with ⟨_, _ | _ | _, _⟩ <;> cases kind <;> simp [Relation.columns]
  induction rows with
  | nil => rfl
  | cons c rows ih =>
    simp only [ownValues, columnsNeeded, List.length_map, List.foldr_cons] at ih ⊢
    rcases hone c with h | h
    · rw [List.filter_cons_of_neg (by simp [h]), ih, h, zero_add]
    · rw [List.filter_cons_of_pos (by simp [h]), List.length_cons, ih, h, add_comm]

theorem getD_ownValues {f : Constraint ℚ → ℚ} {rows : List (Constraint ℚ)} {i : ℕ}
    {c : Constraint ℚ} (hc : rows[i]? = some c) (hk : c.relation.columns kind ≠ 0) :
    (ownValues kind f rows).getD (columnsNeeded kind (rows.take i)) 0 = f c := by
  obtain ⟨hi, rfl⟩ := List.getElem?_eq_some_iff.mp hc
  have hrows : rows.take i ++ rows[i] :: rows.drop (i + 1) = rows := by
    rw [← List.drop_eq_getElem_cons hi, List.take_append_drop]
  have hsplit : ownValues kind f (rows.take i ++ rows[i] :: rows.drop (i + 1)) =
      ownValues kind f (rows.take i) ++ f rows[i] :: ownValues kind f (rows.drop (i + 1)) := by
    simp only [ownValues, List.filter_append, List.map_append]
    rw [List.filter_cons_of_pos (by simp [hk]), List.map_cons]
  rw [hrows] at hsplit
  rw [hsplit, List.getD_append_right _ _ _ _ (length_ownValues ..).le, length_ownValues,
    Nat.sub_self, List.getD_cons_zero]

theorem getD_ownEntries {n k : ℕ} (hk : k < n) (before : List (Constraint ℚ)) (c : Constraint ℚ)
    (x : ℚ) : (ownEntries kind n before c x).getD k 0 =
      if c.relation.columns kind = 0 then 0
      else if k = columnsNeeded kind before then x else 0 := by
  rw [ownEntries]
  split
  · simp [List.getD_eq_getElem?_getD, hk]
  · rw [unitEntries, List.getD_eq_getElem?_getD, List.getElem?_set, List.length_replicate]
    by_cases he : columnsNeeded kind before = k
    · simp [he, hk]
    · simp [he, hk, Ne.symm he]

theorem combine_ownEntries {n : ℕ} {before : List (Constraint ℚ)} {c : Constraint ℚ}
    (h : c.relation.columns kind ≠ 0 → columnsNeeded kind before < n) (x : ℚ) (z : ℕ → ℚ) :
    combine (ownEntries kind n before c x) z =
      if c.relation.columns kind = 0 then 0 else x * z (columnsNeeded kind before) := by
  rw [combine, length_ownEntries, Finset.sum_congr rfl fun j hj => by
    rw [getD_ownEntries (Finset.mem_range.mp hj)]]
  split
  · simp
  · next hc =>
    simp only [ite_mul, zero_mul, Finset.sum_ite_eq', Finset.mem_range, if_pos (h hc)]

/-- What a column costs: its own coefficient if it is a variable of the program. -/
def ColumnKind.cost (kind : ColumnKind) (own artificial : ℚ) : ℚ :=
  match kind with
  | .decision => own
  | .artificial => artificial
  | .slack | .surplus => 0

end Columns

namespace Problem

/-- The first column of a kind in the standard form. -/
def firstColumn (p : Problem ℚ) : ColumnKind → ℕ
  | .decision => 0
  | .slack => p.variableCount
  | .surplus => p.variableCount + columnsNeeded .slack p.normalizedRows
  | .artificial => p.variableCount + columnsNeeded .slack p.normalizedRows +
      columnsNeeded .surplus p.normalizedRows

/-- The sum of the artificial parts of a solution. -/
def artificialSum (p : Problem ℚ) (z : ℕ → ℚ) : ℚ :=
  ∑ k ∈ Finset.range (columnsNeeded .artificial p.normalizedRows), z (p.firstColumn .artificial + k)

section Kinds

variable {α : Type} [Scalar α] {p : Problem α} {t : Tableau α}

theorem map_kind_numberedColumns (base : String) (kind : ColumnKind) (n : ℕ) :
    (numberedColumns base kind n).map (·.kind) = List.replicate n kind := by
  simp [numberedColumns, numberedNames, Function.comp_def, List.map_const']

theorem map_kind_standardColumns (p : Problem α) :
    p.standardColumns.map (·.kind) = List.replicate p.variableCount .decision ++
      List.replicate (columnsNeeded .slack p.normalizedRows) .slack ++
      List.replicate (columnsNeeded .surplus p.normalizedRows) .surplus ++
      List.replicate (columnsNeeded .artificial p.normalizedRows) .artificial := by
  simp only [standardColumns, List.map_append, map_kind_numberedColumns]

theorem count_eq_countP (ht : t.columns = p.standardColumns) (kind : ColumnKind) :
    t.count kind = (p.standardColumns.map (·.kind)).countP (· == kind) := by
  rw [Tableau.count, ht, List.countP_map]
  rfl

theorem count_decision (ht : t.columns = p.standardColumns) :
    t.count .decision = p.variableCount := by
  rw [count_eq_countP ht, map_kind_standardColumns]
  simp [List.countP_replicate]

end Kinds

section Form

variable {p : Problem ℚ} {t : Tableau ℚ}

theorem columnCount_eq (ht : t.columns = p.standardColumns) :
    t.columnCount = p.firstColumn .artificial + columnsNeeded .artificial p.normalizedRows := by
  rw [Tableau.columnCount, ht, ← List.length_map (·.kind), map_kind_standardColumns]
  simp only [firstColumn, List.length_append, List.length_replicate]

theorem isArtificial_iff (ht : t.columns = p.standardColumns) (j : ℕ) :
    t.isArtificial j = true ↔ p.firstColumn .artificial ≤ j ∧ j < t.columnCount := by
  have h : t.isArtificial j = ((p.standardColumns.map (·.kind))[j]?).any (· == .artificial) := by
    rw [Tableau.isArtificial, ht, List.getElem?_map]
    cases p.standardColumns[j]? <;> rfl
  rw [h, map_kind_standardColumns, columnCount_eq ht, firstColumn]
  simp only [List.getElem?_append, List.getElem?_replicate, List.length_append,
    List.length_replicate]
  split_ifs <;> simp <;> omega

theorem costs_eq (ht : t.columns = p.standardColumns) {coefficients : List ℚ}
    (hc : coefficients.length = p.variableCount) (artificial : ℚ) :
    t.costs coefficients artificial = coefficients ++
      List.replicate (columnsNeeded .slack p.normalizedRows) 0 ++
      List.replicate (columnsNeeded .surplus p.normalizedRows) 0 ++
      List.replicate (columnsNeeded .artificial p.normalizedRows) artificial := by
  -- Costs depend on the kind and the position of a column only.
  have h : t.costs coefficients artificial = (p.standardColumns.map (·.kind)).zipIdx.map
      fun e => e.1.cost (coefficients.getD e.2 0) artificial := by
    rw [Tableau.costs, ht, List.zipIdx_map, List.map_map]
    rfl
  rw [h, map_kind_standardColumns]
  refine List.ext_getElem (by simp [hc, add_assoc]) fun j hj hj' => ?_
  simp only [List.getElem_map, List.getElem_zipIdx, List.getElem_append, List.getElem_replicate,
    List.length_append, List.length_replicate, hc, zero_add]
  split_ifs <;> simp_all [ColumnKind.cost, List.getD_eq_getElem?_getD]

/-- Costs add what the artificials cost to the form of their coefficients. -/
theorem combine_costs (ht : t.columns = p.standardColumns) {coefficients : List ℚ}
    (hc : coefficients.length = p.variableCount) (artificial : ℚ) (z : ℕ → ℚ) :
    combine (t.costs coefficients artificial) z =
      combine coefficients z + artificial * p.artificialSum z := by
  have hlast : ∀ (n : ℕ) (w : ℕ → ℚ),
      combine (List.replicate n artificial) w = artificial * ∑ k ∈ Finset.range n, w k := by
    intro n w
    rw [combine, List.length_replicate, Finset.mul_sum]
    refine Finset.sum_congr rfl fun k hk => ?_
    rw [List.getD_replicate _ (Finset.mem_range.mp hk)]
  rw [costs_eq ht hc, combine_append, combine_append, combine_append, combine_replicate_zero,
    combine_replicate_zero, hlast]
  simp only [List.length_append, List.length_replicate, hc, add_zero, firstColumn, artificialSum]

end Form

section Rows

variable {p : Problem ℚ} {kind : ColumnKind} {i k : ℕ} {c : Constraint ℚ}

/-- The column of a kind that row `i` brings. -/
def ownColumn (p : Problem ℚ) (kind : ColumnKind) (i : ℕ) : ℕ :=
  p.firstColumn kind + columnsNeeded kind (p.normalizedRows.take i)

theorem ownColumn_lt (hc : p.normalizedRows[i]? = some c) (hk : c.relation.columns kind ≠ 0) :
    p.ownColumn kind i < p.firstColumn kind + columnsNeeded kind p.normalizedRows :=
  Nat.add_lt_add_left (columnsNeeded_take_lt_all hc hk) _

/-- No two rows and no two kinds share a column. -/
theorem ownColumn_eq_iff {kind' : ColumnKind} {d : Constraint ℚ}
    (hc : p.normalizedRows[i]? = some c) (hd : p.normalizedRows[k]? = some d)
    (hck : c.relation.columns kind ≠ 0) (hdk : d.relation.columns kind' ≠ 0) :
    p.ownColumn kind i = p.ownColumn kind' k ↔ kind = kind' ∧ i = k := by
  refine ⟨fun h => ?_, by rintro ⟨rfl, rfl⟩; rfl⟩
  have hci := columnsNeeded_take_lt_all hc hck
  have hdi := columnsNeeded_take_lt_all hd hdk
  by_cases hkind : kind = kind'
  · subst hkind
    rw [ownColumn, ownColumn, Nat.add_left_cancel_iff] at h
    rcases lt_trichotomy i k with hik | hik | hik
    · exact absurd h (columnsNeeded_take_lt hc hck hik).ne
    · exact ⟨rfl, hik⟩
    · exact absurd h (columnsNeeded_take_lt hd hdk hik).ne'
  · -- Columns of different kinds lie in different blocks.
    exfalso
    cases kind <;> cases kind' <;>
      first
      | exact hkind rfl
      | exact hck rfl
      | exact hdk rfl
      | (simp only [ownColumn, firstColumn] at h; omega)

/-- A standard row adds to its form the slack, or the artificial and perhaps less the surplus, that
the row brings. -/
theorem value_standardRow (hc : p.normalizedRows[i]? = some c)
    (hl : c.coefficients.length = p.variableCount) (z : ℕ → ℚ) :
    (p.standardRow (p.normalizedRows.take i) c).value z = combine c.coefficients z +
      match c.relation with
      | .le => z (p.ownColumn .slack i)
      | .ge => z (p.ownColumn .artificial i) - z (p.ownColumn .surplus i)
      | .eq => z (p.ownColumn .artificial i) := by
  have hown : ∀ kind, c.relation.columns kind ≠ 0 →
      columnsNeeded kind (p.normalizedRows.take i) < columnsNeeded kind p.normalizedRows :=
    fun kind => columnsNeeded_take_lt_all hc
  rw [Row.value, standardRow]
  simp only [combine_append, combine_ownEntries (hown _), List.length_append, length_ownEntries, hl]
  obtain ⟨_, relation, _⟩ := c
  cases relation with
  | le => simp [Relation.columns, ownColumn, firstColumn]
  | ge =>
    simp only [Relation.columns, ownColumn, firstColumn, reduceCtorEq, if_false, if_true,
      one_ne_zero, one_mul, neg_mul, add_assoc]
    ring
  | eq => simp [Relation.columns, ownColumn, firstColumn, add_assoc]

/-- The kind of column that is basic in the row of a constraint. -/
def basicKind (c : Constraint ℚ) : ColumnKind := if c.relation = .le then .slack else .artificial

theorem columns_basicKind (c : Constraint ℚ) : c.relation.columns (basicKind c) ≠ 0 := by
  obtain ⟨_, _ | _ | _, _⟩ := c <;> simp [basicKind, Relation.columns]

theorem basic_standardRow (p : Problem ℚ) (i : ℕ) (c : Constraint ℚ) :
    (p.standardRow (p.normalizedRows.take i) c).basic = p.ownColumn (basicKind c) i := by
  obtain ⟨_, _ | _ | _, _⟩ := c <;> rfl

/-- The columns that the rows of a standard form start with are unit columns. -/
theorem entry_standardRow_basic {d : Constraint ℚ} (hc : p.normalizedRows[i]? = some c)
    (hd : p.normalizedRows[k]? = some d) (hl : d.coefficients.length = p.variableCount) :
    (p.standardRow (p.normalizedRows.take k) d).entry (p.ownColumn (basicKind c) i) =
      if i = k then 1 else 0 := by
  have hfirst : p.variableCount ≤ p.ownColumn (basicKind c) i := by
    rw [basicKind]
    split <;> simp only [ownColumn, firstColumn] <;> omega
  have hzero : combine d.coefficients (fun j => if j = p.ownColumn (basicKind c) i then 1 else 0) =
      0 := by
    refine Finset.sum_eq_zero fun j hj => ?_
    have hj := Finset.mem_range.mp hj
    simp only [show j ≠ p.ownColumn (basicKind c) i by omega, if_false, mul_zero]
  have hown : ∀ kind, d.relation.columns kind ≠ 0 →
      (if p.ownColumn kind k = p.ownColumn (basicKind c) i then (1 : ℚ) else 0) =
        if kind = basicKind d ∧ i = k then 1 else 0 := by
    intro kind hk
    refine if_congr ?_ rfl rfl
    rw [ownColumn_eq_iff hd hc hk (columns_basicKind c)]
    constructor <;> rintro ⟨hkind, rfl⟩ <;> obtain rfl := Option.some.inj (hc.symm.trans hd) <;>
      exact ⟨hkind, rfl⟩
  rw [← Row.value_unit, value_standardRow hd hl, hzero, zero_add]
  obtain ⟨_, relation, _⟩ := d
  cases relation with
  | le => exact (hown .slack (by simp [Relation.columns])).trans (by simp [basicKind])
  | ge =>
    refine (congrArg₂ (· - ·) (hown .artificial (by simp [Relation.columns]))
      (hown .surplus (by simp [Relation.columns]))).trans (by simp [basicKind])
  | eq => exact (hown .artificial (by simp [Relation.columns])).trans (by simp [basicKind])

end Rows

end Problem

namespace Constraint

theorem bound_normalized_nonneg (c : Constraint ℚ) : 0 ≤ c.normalized.bound := by
  rw [normalized]
  split
  · next h => exact (neg_pos.mpr h).le
  · next h => exact not_lt.mp h

end Constraint

namespace Problem

variable {p : Problem ℚ} (hl : ∀ c ∈ p.constraints, c.coefficients.length = p.variableCount)

include hl

theorem isSolved_standardForm : p.standardForm.IsSolved := by
  refine ⟨(isRectangular_standardForm hl).width, fun {i k r s} hi hk => ?_⟩
  rw [getElem?_rows_standardForm] at hi hk
  obtain ⟨c, hc, rfl⟩ := Option.map_eq_some_iff.mp hi
  obtain ⟨d, hd, rfl⟩ := Option.map_eq_some_iff.mp hk
  rw [basic_standardRow]
  exact entry_standardRow_basic hc hd
    (length_of_mem_normalizedRows hl (List.mem_of_getElem? hd))

omit hl in
theorem isFeasible_standardForm (p : Problem ℚ) : p.standardForm.IsFeasible := by
  intro r hr
  obtain ⟨i, hi⟩ := List.mem_iff_getElem?.mp hr
  rw [getElem?_rows_standardForm] at hi
  obtain ⟨c, hc, rfl⟩ := Option.map_eq_some_iff.mp hi
  obtain ⟨d, -, rfl⟩ := List.mem_map.mp (List.mem_of_getElem? hc)
  exact d.bound_normalized_nonneg

end Problem

end LinearProgram
