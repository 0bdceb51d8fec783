import LinearProgram.Proofs.Checked.Table

/-! # Checked construction

The standard form is entered row by row into a table of zeros. The next slack, surplus and
artificial column are counted along; they stay in the blocks of their kinds.
-/

namespace LinearProgram

namespace Checked

/-- The next free column of every kind. -/
structure FreeColumns where
  slack : ℕ
  surplus : ℕ
  artificial : ℕ

/-- A table while its rows are entered. -/
structure Draft (α : Type) where
  data : List (List α)
  basics : List ℕ
  free : FreeColumns

section Definitions

variable {α : Type} [Scalar α]

/-- Enters a constraint in `n` variables into a row whose solution entry is at `last`; also gives
the column that is basic in it. -/
def fillRow (n last : ℕ) (free : FreeColumns) (c : Constraint α) (row : List α) :
    Except Fault (List α × ℕ × FreeColumns) := do
  let row ← overwrite c.coefficients n row
  let row ← write row last c.bound
  match c.relation with
  | .le => do
    let row ← write row free.slack 1
    .ok (row, free.slack, { free with slack := free.slack + 1 })
  | .ge => do
    let row ← write row free.surplus (-1)
    let row ← write row free.artificial 1
    .ok (row, free.artificial,
      { free with surplus := free.surplus + 1, artificial := free.artificial + 1 })
  | .eq => do
    let row ← write row free.artificial 1
    .ok (row, free.artificial, { free with artificial := free.artificial + 1 })

def enterRow (n last : ℕ) (rows : List (Constraint α)) (draft : Draft α) (i : ℕ) :
    Except Fault (Draft α) := do
  let (row, basic, free) ← fillRow n last draft.free (← read rows i) (← read draft.data i)
  .ok ⟨← write draft.data i row, ← write draft.basics i basic, free⟩

/-- The table of the standard form. -/
def build (p : Problem α) : Except Fault (Table α) := do
  let n := p.variableCount
  let rows := p.normalizedRows
  let columns := p.standardColumns
  let surplus := n + columnsNeeded .slack rows
  let draft ← (List.range rows.length).foldlM (enterRow n columns.length rows)
    { data := List.replicate (rows.length + 1) (List.replicate (columns.length + 1) 0)
      basics := List.replicate rows.length 0
      free := ⟨n, surplus, surplus + columnsNeeded .surplus rows⟩ }
  .ok ⟨draft.data, draft.basics, columns, n⟩

end Definitions

section Rows

variable {p : Problem ℚ} {c : Constraint ℚ} {i : ℕ}

/-- The free columns behind the first rows. -/
def freeColumns (p : Problem ℚ) (i : ℕ) : FreeColumns :=
  ⟨p.ownColumn .slack i, p.ownColumn .surplus i, p.ownColumn .artificial i⟩

theorem ownColumn_succ (hc : p.normalizedRows[i]? = some c) (kind : ColumnKind) :
    p.ownColumn kind (i + 1) = p.ownColumn kind i + c.relation.columns kind := by
  rw [Problem.ownColumn, Problem.ownColumn, List.take_add_one, hc, Option.toList_some,
    columnsNeeded_append, ← Nat.add_assoc]
  rfl

theorem length_standardColumns (p : Problem ℚ) : p.standardColumns.length = p.variableCount +
    (columnsNeeded .slack p.normalizedRows + (columnsNeeded .surplus p.normalizedRows +
      columnsNeeded .artificial p.normalizedRows)) := by
  rw [← Nat.add_assoc, ← Nat.add_assoc]
  exact Problem.columnCount_eq (t := p.standardForm) rfl

/-- A row of coefficients, one block for every further kind of column, and the solution entry. -/
def blocks (coefficients slacks surpluses artificials : List ℚ) (solution : ℚ) : List ℚ :=
  coefficients ++ (slacks ++ (surpluses ++ (artificials ++ [solution])))

theorem values_standardRow (p : Problem ℚ) (before : List (Constraint ℚ)) (c : Constraint ℚ) :
    (p.standardRow before c).values = blocks c.coefficients
      (ownEntries .slack (columnsNeeded .slack p.normalizedRows) before c 1)
      (ownEntries .surplus (columnsNeeded .surplus p.normalizedRows) before c (-1))
      (ownEntries .artificial (columnsNeeded .artificial p.normalizedRows) before c 1)
      c.bound := by
  simp only [Row.values, Problem.standardRow, blocks, List.append_assoc]

section Blocks

variable {coefficients slacks surpluses artificials block : List ℚ} {solution x : ℚ}
  (hl : coefficients.length = p.variableCount)

include hl

theorem write_slack (h : write slacks (columnsNeeded .slack (p.normalizedRows.take i)) x =
      .ok block) :
    write (blocks coefficients slacks surpluses artificials solution) (p.ownColumn .slack i) x =
      .ok (blocks coefficients block surpluses artificials solution) :=
  write_append_right (by rw [hl]; rfl) (write_append_left h)

variable (hslacks : slacks.length = columnsNeeded .slack p.normalizedRows)

include hslacks

theorem write_surplus (h : write surpluses (columnsNeeded .surplus (p.normalizedRows.take i)) x =
      .ok block) :
    write (blocks coefficients slacks surpluses artificials solution) (p.ownColumn .surplus i) x =
      .ok (blocks coefficients slacks block artificials solution) :=
  write_append_right (by rw [hl, Problem.ownColumn, Problem.firstColumn, Nat.add_assoc])
    (write_append_right (by rw [hslacks]) (write_append_left h))

variable (hsurpluses : surpluses.length = columnsNeeded .surplus p.normalizedRows)

include hsurpluses

theorem write_artificial
    (h : write artificials (columnsNeeded .artificial (p.normalizedRows.take i)) x = .ok block) :
    write (blocks coefficients slacks surpluses artificials solution)
        (p.ownColumn .artificial i) x =
      .ok (blocks coefficients slacks surpluses block solution) :=
  write_append_right
    (by rw [hl, Problem.ownColumn, Problem.firstColumn, Nat.add_assoc, Nat.add_assoc])
    (write_append_right (by rw [hslacks])
      (write_append_right (by rw [hsurpluses]) (write_append_left h)))

theorem write_bound (hartificials : artificials.length = columnsNeeded .artificial p.normalizedRows)
    (x : ℚ) :
    write (blocks coefficients slacks surpluses artificials solution) p.standardColumns.length x =
      .ok (blocks coefficients slacks surpluses artificials x) :=
  write_append_right (by rw [hl, length_standardColumns])
    (write_append_right (by rw [hslacks])
      (write_append_right (by rw [hsurpluses])
        (write_append_right (by rw [hartificials, Nat.add_zero]) rfl)))

omit hslacks hsurpluses in
/-- The coefficients are copied to a row of zeros. -/
theorem overwrite_zeros :
    overwrite coefficients p.variableCount (List.replicate (p.standardColumns.length + 1) 0) =
      .ok (blocks coefficients (List.replicate (columnsNeeded .slack p.normalizedRows) 0)
        (List.replicate (columnsNeeded .surplus p.normalizedRows) 0)
        (List.replicate (columnsNeeded .artificial p.normalizedRows) 0) 0) := by
  rw [overwrite_eq_ok (by rw [List.length_replicate, length_standardColumns]; omega) hl,
    List.drop_replicate, length_standardColumns, Nat.add_assoc, Nat.add_sub_cancel_left,
    List.replicate_add, List.replicate_add, List.replicate_add, List.append_assoc,
    List.append_assoc]
  rfl

end Blocks

/-- The own column of a row is in the block of its kind. -/
theorem write_ownEntries (kind : ColumnKind) (hc : p.normalizedRows[i]? = some c)
    (hk : c.relation.columns kind ≠ 0) (x : ℚ) :
    write (List.replicate (columnsNeeded kind p.normalizedRows) 0)
        (columnsNeeded kind (p.normalizedRows.take i)) x =
      .ok (ownEntries kind (columnsNeeded kind p.normalizedRows) (p.normalizedRows.take i)
        c x) := by
  rw [ownEntries, if_neg hk]
  exact write_eq_ok (by rw [List.length_replicate]; exact columnsNeeded_take_lt_all hc hk) x

theorem fillRow_eq_ok (hc : p.normalizedRows[i]? = some c)
    (hl : c.coefficients.length = p.variableCount) :
    fillRow p.variableCount p.standardColumns.length (freeColumns p i) c
        (List.replicate (p.standardColumns.length + 1) 0) =
      .ok ((p.standardRow (p.normalizedRows.take i) c).values,
        (p.standardRow (p.normalizedRows.take i) c).basic, freeColumns p (i + 1)) := by
  have hnone : ∀ kind x, c.relation.columns kind = 0 →
      ownEntries kind (columnsNeeded kind p.normalizedRows) (p.normalizedRows.take i) c x =
        List.replicate (columnsNeeded kind p.normalizedRows) 0 := fun kind x hk => if_pos hk
  have hfree : freeColumns p (i + 1) = ⟨p.ownColumn .slack i + c.relation.columns .slack,
      p.ownColumn .surplus i + c.relation.columns .surplus,
      p.ownColumn .artificial i + c.relation.columns .artificial⟩ := by
    simp only [freeColumns, ownColumn_succ hc]
  rw [fillRow, overwrite_zeros hl, ok_bind, write_bound hl List.length_replicate
    List.length_replicate List.length_replicate, ok_bind, values_standardRow,
    Problem.basic_standardRow, hfree]
  cases hrel : c.relation with
  | le =>
    have hslack := write_ownEntries .slack hc (by rw [hrel]; decide) 1
    refine (bind_of_eq (write_slack hl hslack) _).trans ?_
    rw [hnone .surplus _ (by rw [hrel]; rfl), hnone .artificial _ (by rw [hrel]; rfl),
      Problem.basicKind, if_pos hrel]
    rfl
  | ge =>
    have hsurplus := write_ownEntries .surplus hc (by rw [hrel]; decide) (-1)
    have hartificial := write_ownEntries .artificial hc (by rw [hrel]; decide) 1
    refine (bind_of_eq (write_surplus hl List.length_replicate hsurplus) _).trans ?_
    refine (bind_of_eq (write_artificial hl List.length_replicate (length_ownEntries ..)
      hartificial) _).trans ?_
    rw [hnone .slack _ (by rw [hrel]; rfl), Problem.basicKind, if_neg (by rw [hrel]; decide)]
    rfl
  | eq =>
    have hartificial := write_ownEntries .artificial hc (by rw [hrel]; decide) 1
    refine (bind_of_eq (write_artificial hl List.length_replicate List.length_replicate
      hartificial) _).trans ?_
    rw [hnone .slack _ (by rw [hrel]; rfl), hnone .surplus _ (by rw [hrel]; rfl),
      Problem.basicKind, if_neg (by rw [hrel]; decide)]
    rfl

/-- The table when the first rows are entered. -/
def draft (p : Problem ℚ) (i : ℕ) : Draft ℚ :=
  ⟨(p.standardForm.rows.take i).map (·.values) ++ List.replicate (p.normalizedRows.length - i + 1)
      (List.replicate (p.standardColumns.length + 1) 0),
    (p.standardForm.rows.take i).map (·.basic) ++ List.replicate (p.normalizedRows.length - i) 0,
    freeColumns p i⟩

theorem enterRow_eq_ok (hc : p.normalizedRows[i]? = some c)
    (hl : c.coefficients.length = p.variableCount) :
    enterRow p.variableCount p.standardColumns.length p.normalizedRows (draft p i) i =
      .ok (draft p (i + 1)) := by
  have hr : p.standardForm.rows[i]? = some (p.standardRow (p.normalizedRows.take i) c) := by
    rw [Problem.getElem?_rows_standardForm, hc, Option.map_some]
  have hi : i < p.standardForm.rows.length := (List.getElem?_eq_some_iff.mp hr).1
  have hlen : (p.standardForm.rows.take i).length = i := List.length_take_of_le hi.le
  have htake : p.standardForm.rows.take (i + 1) =
      p.standardForm.rows.take i ++ [p.standardRow (p.normalizedRows.take i) c] := by
    rw [List.take_add_one, hr, Option.toList_some]
  obtain ⟨k, hk, hk'⟩ : ∃ k, p.normalizedRows.length - i = k + 1 ∧
      p.normalizedRows.length - (i + 1) = k := by
    have hlt := (List.getElem?_eq_some_iff.mp hc).1
    exact ⟨p.normalizedRows.length - (i + 1), by omega, rfl⟩
  have hmap : ∀ {β : Type} (f : BasicRow ℚ → β),
      ((p.standardForm.rows.take i).map f).length = i := fun f => by rw [List.length_map, hlen]
  have hblank : (draft p i).data[i]? = some (List.replicate (p.standardColumns.length + 1) 0) := by
    rw [draft, List.getElem?_append_right (hmap _).le, hmap, Nat.sub_self]
    rfl
  have hdata : write (draft p i).data i (p.standardRow (p.normalizedRows.take i) c).values =
      .ok (draft p (i + 1)).data := by
    simp only [draft, hk, hk', htake, List.map_append, List.append_assoc]
    exact write_append_right (i := 0) (hmap _).symm rfl
  have hbasics : write (draft p i).basics i (p.standardRow (p.normalizedRows.take i) c).basic =
      .ok (draft p (i + 1)).basics := by
    simp only [draft, hk, hk', htake, List.map_append, List.append_assoc]
    exact write_append_right (i := 0) (hmap _).symm rfl
  rw [enterRow, read_eq_ok hc, ok_bind, read_eq_ok hblank, ok_bind]
  refine (bind_of_eq (fillRow_eq_ok hc hl) _).trans ?_
  simp only [hdata, hbasics, ok_bind]
  rfl

/-- All lists have the length of the objective. -/
theorem build_eq_ok (hl : ∀ c ∈ p.constraints, c.coefficients.length = p.variableCount) :
    build p = .ok p.standardForm.table := by
  have hrow : ∀ i < p.normalizedRows.length, enterRow p.variableCount p.standardColumns.length
      p.normalizedRows (draft p i) i = .ok (draft p (i + 1)) := fun i hi =>
    enterRow_eq_ok (List.getElem?_eq_getElem hi)
      (Problem.length_of_mem_normalizedRows hl (List.getElem_mem hi))
  have hdone : p.standardForm.rows.take p.normalizedRows.length = p.standardForm.rows :=
    List.take_of_length_le (Problem.length_standardRows ..).le
  have hlast : p.standardForm.objective.values =
      List.replicate (p.standardColumns.length + 1) 0 := List.replicate_succ'.symm
  rw [build]
  refine (bind_of_eq (loop_eq_ok (draft p) hrow) _).trans ?_
  simp only [draft, hdone, Nat.sub_self, Tableau.table, Tableau.grid, hlast,
    Problem.count_decision (t := p.standardForm) rfl, List.replicate_zero, List.append_nil]
  rfl

end Rows

end Checked

end LinearProgram
