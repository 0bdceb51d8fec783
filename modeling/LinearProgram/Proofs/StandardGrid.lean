import LinearProgram.Proofs.Points

/-! # The grid of the standard form

The standard form is laid out as a grid that a solve can start from. A point satisfies the
constraints just when values for the slack and surplus columns complete it to a solution of the
grid without artificial parts: the slacks and surpluses of a feasible point are such values, and
any such values leave the constraints no room to fail.
-/

namespace LinearProgram

namespace Tableau

/-- The grid has a row for each constraint and an objective row. No constraint row ends in a
negative entry, and the column that is basic in a row is a unit column and basic in no other. -/
structure IsReady (t : Tableau ℚ) (constraints : ℕ) : Prop where
  length_grid : t.grid.length = constraints + 1
  width : ∀ r ∈ t.grid, r.length = t.columnCount + 1
  nonneg : ∀ r ∈ t.grid.dropLast, 0 ≤ r.getLastD 0
  basic_lt : ∀ r ∈ t.rows, r.basic < t.columnCount
  unit : ∀ i r, t.rows[i]? = some r →
    t.grid.map (·.getD r.basic 0) = unitEntries (constraints + 1) i 1
  nodup : (t.rows.map (·.basic)).Nodup

theorem dropLast_grid (t : Tableau ℚ) : t.grid.dropLast = t.rows.map (·.values) :=
  List.dropLast_concat

section Ready

variable {t : Tableau ℚ} {r : BasicRow ℚ} {i : ℕ} (h : t.IsSolved)

include h

/-- Read down the constraint rows, a basic column is a unit column. -/
theorem IsSolved.map_getD_basic (hr : t.rows[i]? = some r) :
    t.rows.map (·.values.getD r.basic 0) = unitEntries t.rows.length i 1 := by
  refine List.ext_getElem (by simp [unitEntries]) fun k hk _ => ?_
  rw [List.length_map] at hk
  have hlt : r.basic < t.rows[k].entries.length :=
    (h.basic_lt (List.mem_of_getElem? hr)).trans_eq (h.width _ (List.getElem_mem hk)).symm
  rw [List.getElem_map, Row.values, List.getD_append _ _ _ _ hlt]
  simpa [unitEntries, List.getElem_set, Row.entry] using h.unit hr (List.getElem?_eq_getElem hk)

theorem IsSolved.nodup_basic : (t.rows.map (·.basic)).Nodup := by
  rw [List.Nodup, List.pairwise_iff_getElem]
  intro i k hi hk hik hbasic
  rw [List.length_map] at hi hk
  rw [List.getElem_map, List.getElem_map] at hbasic
  exact hik.ne (h.index_eq_of_basic_eq (List.getElem?_eq_getElem hi) (List.getElem?_eq_getElem hk)
    hbasic)

/-- In solved form, with no basic variable negative and an objective row of zeros, a tableau is
ready. -/
theorem IsSolved.isReady (hf : t.IsFeasible)
    (hobjective : t.objective.values = List.replicate (t.columnCount + 1) 0) :
    t.IsReady t.rows.length where
  length_grid := by rw [grid, List.length_append, List.length_map, List.length_singleton]
  width := by
    rw [grid, List.forall_mem_append, List.forall_mem_map, List.forall_mem_singleton, hobjective]
    refine ⟨fun r hr => ?_, List.length_replicate⟩
    rw [Row.values, List.length_append, h.width r hr, List.length_singleton]
  nonneg := by
    rw [dropLast_grid, List.forall_mem_map]
    intro r hr
    rw [Row.getLastD_values]
    exact hf r hr
  basic_lt r hr := h.basic_lt hr
  unit i r hr := by
    have hi : i < (List.replicate t.rows.length (0 : ℚ)).length := by
      rw [List.length_replicate]
      exact (List.getElem?_eq_some_iff.mp hr).1
    have hrows : (t.rows.map (·.values)).map (·.getD r.basic 0) =
        unitEntries t.rows.length i 1 := by
      rw [List.map_map]
      exact h.map_getD_basic hr
    rw [grid, List.map_append, hrows, List.map_singleton, hobjective, List.getD_eq_getElem?_getD,
      List.getElem?_getD_replicate_default_eq, unitEntries, unitEntries, List.replicate_succ',
      List.set_append_left _ _ hi]
  nodup := h.nodup_basic

end Ready

/-- What a list with one value for each column has for the columns of a kind. -/
def valuesOf (t : Tableau ℚ) (kind : ColumnKind) (z : List ℚ) : List ℚ :=
  ((t.columns.zip z).filter fun cz => cz.1.kind = kind).map (·.2)

/-- The list has the point in the decision columns, no negative slack or surplus and no artificial
part, and it satisfies every constraint row of the grid. -/
structure Completes (t : Tableau ℚ) (x z : List ℚ) : Prop where
  length_eq : z.length = t.columnCount
  decision : t.valuesOf .decision z = x
  slack : ∀ v ∈ t.valuesOf .slack z, 0 ≤ v
  surplus : ∀ v ∈ t.valuesOf .surplus z, 0 ≤ v
  artificial : ∀ v ∈ t.valuesOf .artificial z, v = 0
  rows : ∀ r ∈ t.grid.dropLast, Scalar.dot r.dropLast z = r.getLastD 0

variable {t : Tableau ℚ} {x z : List ℚ}

theorem mem_valuesOf_iff {kind : ColumnKind} {v : ℚ} : v ∈ t.valuesOf kind z ↔
    ∃ (j : ℕ) (c : Column), t.columns[j]? = some c ∧ z[j]? = some v ∧ c.kind = kind := by
  constructor
  · intro h
    obtain ⟨⟨c, _⟩, hmem, rfl⟩ := List.mem_map.mp h
    obtain ⟨hzip, hkind⟩ := List.mem_filter.mp hmem
    obtain ⟨j, hj⟩ := List.mem_iff_getElem?.mp hzip
    obtain ⟨hc, hz⟩ := List.getElem?_zip_eq_some.mp hj
    exact ⟨j, c, hc, hz, of_decide_eq_true hkind⟩
  · rintro ⟨j, c, hc, hz, hkind⟩
    have hzip : (c, v) ∈ t.columns.zip z :=
      List.mem_of_getElem? (List.getElem?_zip_eq_some.mpr ⟨hc, hz⟩)
    exact List.mem_map.mpr ⟨(c, v), List.mem_filter.mpr ⟨hzip, decide_eq_true hkind⟩, rfl⟩

/-- The constraint rows of the grid are the equations of the tableau. -/
theorem forall_dropLast_grid_iff (t : Tableau ℚ) (z : List ℚ) :
    (∀ r ∈ t.grid.dropLast, Scalar.dot r.dropLast z = r.getLastD 0) ↔
      t.Solves fun j => z.getD j 0 := by
  rw [dropLast_grid, List.forall_mem_map]
  simp only [Row.dropLast_values, Row.getLastD_values, dot_eq_combine]
  rfl

/-- No value of a completed point is negative. -/
theorem Completes.nonneg (h : t.Completes x z) (hx : ∀ v ∈ x, 0 ≤ v) : ∀ v ∈ z, 0 ≤ v := by
  intro v hv
  obtain ⟨j, hj⟩ := List.mem_iff_getElem?.mp hv
  have hlt : j < t.columns.length := by
    rw [← columnCount, ← h.length_eq]
    exact (List.getElem?_eq_some_iff.mp hj).1
  have hmem : v ∈ t.valuesOf t.columns[j].kind z :=
    mem_valuesOf_iff.mpr ⟨j, _, List.getElem?_eq_getElem hlt, hj, rfl⟩
  cases hkind : t.columns[j].kind with
  | decision => exact hx v (h.decision ▸ hkind ▸ hmem)
  | slack => exact h.slack v (hkind ▸ hmem)
  | surplus => exact h.surplus v (hkind ▸ hmem)
  | artificial => exact (h.artificial v (hkind ▸ hmem)).ge

end Tableau

namespace Problem

variable {p : Problem ℚ} {x z : List ℚ}

/-- The decision columns come first. -/
theorem valuesOf_decision {t : Tableau ℚ} (ht : t.columns = p.standardColumns)
    (hz : p.variableCount ≤ z.length) : t.valuesOf .decision z = z.take p.variableCount := by
  have hkinds := map_kind_standardColumns p
  rw [← ht] at hkinds
  simp only [List.append_assoc] at hkinds
  have hvalues : t.valuesOf .decision z =
      (((t.columns.map (·.kind)).zip z).filter (·.1 = .decision)).map (·.2) := by
    rw [Tableau.valuesOf, List.zip_map_left, List.filter_map, List.map_map]
    rfl
  have hfirst : (List.replicate p.variableCount ColumnKind.decision).length =
      (z.take p.variableCount).length := by simp [hz]
  rw [hvalues, hkinds]
  conv_lhs => rw [← List.take_append_drop p.variableCount z]
  rw [List.zip_append hfirst, List.filter_append, List.filter_eq_self.mpr,
    List.filter_eq_nil_iff.mpr, List.append_nil, List.map_snd_zip hfirst.ge]
  · rintro ⟨kind, v⟩ hmem
    have hkind := (List.of_mem_zip hmem).1
    simp only [List.mem_append, List.mem_replicate] at hkind
    obtain ⟨-, rfl⟩ | ⟨-, rfl⟩ | ⟨-, rfl⟩ := hkind <;> simp
  · rintro ⟨kind, v⟩ hmem
    simpa using (List.mem_replicate.mp (List.of_mem_zip hmem).1).2

/-- The values of a completed point are those of its extension by position. -/
theorem pointOf_of_completes (h : p.standardForm.Completes x z) :
    p.pointOf (fun j => z.getD j 0) = x := by
  have hle : p.variableCount ≤ z.length := by
    rw [h.length_eq, columnCount_eq rfl, firstColumn]
    omega
  rw [← h.decision, valuesOf_decision rfl hle, pointOf]
  refine List.ext_getElem (by simp [hle]) fun j hj hj' => ?_
  rw [List.length_take] at hj'
  simp only [List.getElem_map, List.getElem_range, List.getElem_take]
  exact List.getD_eq_getElem _ _ (by omega)

section Complete

variable (hl : ∀ c ∈ p.constraints, c.coefficients.length = p.variableCount)

include hl

/-- A completed point satisfies every constraint. -/
theorem feasible_of_completes (hx : ∀ v ∈ x, 0 ≤ v) (h : p.standardForm.Completes x z) :
    p.Feasible x := by
  have hnonneg := h.nonneg hx
  rw [← pointOf_of_completes h]
  refine feasible_pointOf hl ((Tableau.forall_dropLast_grid_iff _ z).mp h.rows) (fun j => ?_)
    fun j hj => ?_
  · exact getD_of_forall (P := (0 ≤ ·)) le_rfl fun v hv => hnonneg v (List.mem_of_getElem? hv)
  · obtain ⟨c, hc, hkind⟩ := (Option.any_eq_true _ _).mp hj
    exact getD_of_forall (P := (· = 0)) rfl fun v hv => h.artificial v
      (Tableau.mem_valuesOf_iff.mpr ⟨j, c, hc, hv, by simpa using hkind⟩)

/-- A feasible point is completed by what its constraints leave as slacks and surpluses. -/
theorem completes_extend (hf : p.Feasible x) :
    p.standardForm.Completes x ((List.range p.standardForm.columnCount).map (p.extend x)) := by
  have hvalue : ∀ kind, ∀ v ∈ p.standardForm.valuesOf kind
      ((List.range p.standardForm.columnCount).map (p.extend x)), ∃ (j : ℕ) (c : Column),
        p.standardForm.columns[j]? = some c ∧ c.kind = kind ∧ v = p.extend x j := by
    intro kind v hv
    obtain ⟨j, c, hc, hj, hkind⟩ := Tableau.mem_valuesOf_iff.mp hv
    rw [List.getElem?_map, Option.map_eq_some_iff] at hj
    obtain ⟨k, hk, rfl⟩ := hj
    obtain ⟨-, rfl⟩ := List.getElem?_eq_some_iff.mp hk
    exact ⟨j, c, hc, hkind, by rw [List.getElem_range]⟩
  have hle : p.variableCount ≤ p.standardForm.columnCount := by
    rw [columnCount_eq rfl, firstColumn]
    omega
  refine ⟨by simp, ?_, fun v hv => ?_, fun v hv => ?_, fun v hv => ?_, ?_⟩
  · rw [valuesOf_decision rfl (by simpa using hle), ← List.map_take, List.take_range,
      min_eq_left hle]
    exact pointOf_extend hf.length_eq
  · obtain ⟨j, -, -, -, rfl⟩ := hvalue .slack v hv
    exact extend_nonneg hf j
  · obtain ⟨j, -, -, -, rfl⟩ := hvalue .surplus v hv
    exact extend_nonneg hf j
  · obtain ⟨j, c, hc, hkind, rfl⟩ := hvalue .artificial v hv
    refine extend_artificial hf.length_eq ?_
    rw [Tableau.isArtificial, hc, Option.any_some, hkind]
    rfl
  · refine (Tableau.forall_dropLast_grid_iff _ _).mpr fun r hr => ?_
    rw [Row.Holds, Row.value, ← solves_extend hl hf r hr]
    refine combine_congr fun j hj => ?_
    rw [(isSolved_standardForm hl).width r hr] at hj
    rw [List.getD_eq_getElem _ _ (by simpa using hj), List.getElem_map, List.getElem_range]

theorem isReady_standardForm : p.standardForm.IsReady p.constraintCount := by
  rw [← length_rows_standardForm]
  exact (isSolved_standardForm hl).isReady (isFeasible_standardForm p) List.replicate_succ'.symm

end Complete

/-- The standard form of a problem is ready to start from, and it states the problem: a point of
values that are not negative satisfies every constraint just when it can be completed. -/
theorem standardForm_faithful (hv : p.validate = .ok ()) :
    p.standardForm.IsReady p.constraintCount ∧
      ∀ x, x.length = p.variableCount → (∀ v ∈ x, 0 ≤ v) →
        ((∀ c ∈ p.constraints, c.Holds x) ↔ ∃ z, p.standardForm.Completes x z) := by
  have hl := p.length_of_validate hv
  refine ⟨isReady_standardForm hl, fun x hlen hx => ⟨fun hc => ?_, ?_⟩⟩
  · exact ⟨_, completes_extend hl ⟨hlen, hx, hc⟩⟩
  · rintro ⟨z, hz⟩
    exact (feasible_of_completes hl hx hz).holds

/-- Two rows are multiplied by `-1`, which turns one relation into each direction. -/
def mixedProblem : Problem ℚ :=
  ⟨⟨[1, 1], .maximize⟩, [⟨[1, 1], .le, 4⟩, ⟨[-1, 0], .le, -1⟩, ⟨[0, 1], .eq, 1⟩,
    ⟨[1, -1], .ge, -2⟩]⟩

/-- A point on one boundary is completed, a point behind another is not. -/
theorem standardForm_faithful_mixedProblem : mixedProblem.validate = .ok () ∧
    mixedProblem.standardForm.columnNames = ["x1", "x2", "s1", "s2", "e1", "a1", "a2"] ∧
    mixedProblem.standardForm.IsReady 4 ∧
    (∃ z, mixedProblem.standardForm.Completes [2, 1] z) ∧
    ¬ ∃ z, mixedProblem.standardForm.Completes [1 / 2, 1] z := by
  have hv : mixedProblem.validate = .ok () := by decide +kernel
  obtain ⟨hready, hfaithful⟩ := standardForm_faithful hv
  exact ⟨hv, by decide +kernel, hready,
    (hfaithful [2, 1] rfl (by decide +kernel)).mp (by decide +kernel),
    fun hz => absurd ((hfaithful [1 / 2, 1] rfl (by decide +kernel)).mpr hz) (by decide +kernel)⟩

end Problem

end LinearProgram
