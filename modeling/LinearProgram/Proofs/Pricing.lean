import LinearProgram.Proofs.Exchange
import LinearProgram.Proofs.Selection

/-! # What the objective row decides

Loading costs and pricing out the basis gives a reduced objective row that prices those costs. When
no allowed column gains, no solution without the barred columns is better than the basic one. A
column that gains and that no row bounds leads along an edge as far as one likes.
-/

namespace LinearProgram

namespace Tableau

variable {t : Tableau ℚ} {costs : List ℚ} {tolerance : ℚ}

theorem priceOutRow_zero (objective : Row ℚ) (r : BasicRow ℚ)
    (h : objective.entries.length = r.entries.length) :
    priceOutRow 0 objective r = objective.subtract (objective.entry r.basic) r.toRow := by
  simp only [priceOutRow, Scalar.abs_eq]
  split
  · rfl
  · next hf =>
    have hz : objective.entry r.basic = 0 := by simpa using hf
    refine Row.ext_entry (Row.length_subtract h _).symm (fun j => ?_) ?_
    · rw [Row.entry_subtract h, hz]; ring
    · rw [Row.solution_subtract, hz]; ring

/-- Pricing out a row brings the entry of its basic column within the tolerance and leaves the
entries of other basic columns. -/
theorem entry_priceOutRow (h : t.IsSolved) (h0 : 0 ≤ tolerance) {objective : Row ℚ}
    (hw : objective.entries.length = t.columnCount) {r s : BasicRow ℚ} (hr : r ∈ t.rows)
    (hs : s ∈ t.rows) : |(priceOutRow tolerance objective r).entry s.basic| ≤ tolerance ∨
      s.basic ≠ r.basic ∧
        (priceOutRow tolerance objective r).entry s.basic = objective.entry s.basic := by
  have hrw : objective.entries.length = r.entries.length := hw.trans (h.width r hr).symm
  simp only [priceOutRow, Scalar.abs_eq]
  split
  · rw [Row.entry_subtract hrw]
    by_cases hb : s.basic = r.basic
    · refine Or.inl ?_
      rw [hb, h.entry_basic hr, mul_one, sub_self, abs_zero]
      exact h0
    · exact Or.inr ⟨hb, by rw [h.entry_basic_of_ne hr hs hb, mul_zero, sub_zero]⟩
  · next hf =>
    by_cases hb : s.basic = r.basic
    · exact Or.inl (hb ▸ not_lt.mp hf)
    · exact Or.inr ⟨hb, rfl⟩

/-- Pricing out the rows of a list brings the entries of their basic columns within the tolerance,
and leaves those there that already are. -/
theorem abs_entry_foldl_priceOutRow_le (h : t.IsSolved) (h0 : 0 ≤ tolerance)
    {l : List (BasicRow ℚ)} (hl : ∀ r ∈ l, r ∈ t.rows) {objective : Row ℚ}
    (hw : objective.entries.length = t.columnCount) :
    (l.foldl (priceOutRow tolerance) objective).entries.length = t.columnCount ∧
      ∀ s ∈ t.rows, (s ∈ l ∨ |objective.entry s.basic| ≤ tolerance) →
        |(l.foldl (priceOutRow tolerance) objective).entry s.basic| ≤ tolerance := by
  induction l generalizing objective with
  | nil => exact ⟨hw, fun s _ hs => hs.resolve_left List.not_mem_nil⟩
  | cons r l ih =>
    have hr := hl r List.mem_cons_self
    obtain ⟨hlen, hle⟩ := ih (fun s hs => hl s (List.mem_cons_of_mem r hs))
      ((length_priceOutRow tolerance (hw.trans (h.width r hr).symm)).trans hw)
    refine ⟨hlen, fun s hs hcase => hle s hs ?_⟩
    obtain hentry | ⟨hb, hentry⟩ := entry_priceOutRow h h0 hw hr hs
    · exact Or.inr hentry
    · rw [hentry]
      refine hcase.imp (fun hmem => (List.mem_cons.mp hmem).resolve_left ?_) id
      exact fun hsr => hb (congrArg BasicRow.basic hsr)

/-- Pricing out the rows of a list keeps what holds at the solutions of these rows. -/
theorem value_foldl_priceOutRow (h : t.IsSolved) {l : List (BasicRow ℚ)}
    (hl : ∀ r ∈ l, r ∈ t.rows) {objective : Row ℚ}
    (hw : objective.entries.length = t.columnCount) {z : ℕ → ℚ} (hz : t.Solves z) :
    objective.value z - (l.foldl (priceOutRow 0) objective).value z =
      objective.solution - (l.foldl (priceOutRow 0) objective).solution := by
  induction l generalizing objective with
  | nil => simp
  | cons r l ih =>
    have hr := hl r List.mem_cons_self
    have hrw : objective.entries.length = r.entries.length := hw.trans (h.width r hr).symm
    have hrest := ih (fun s hs => hl s (List.mem_cons_of_mem r hs))
      ((length_priceOutRow 0 hrw).trans hw)
    rw [List.foldl_cons]
    rw [priceOutRow_zero objective r hrw, Row.value_subtract hrw, Row.solution_subtract,
      hz r hr] at hrest
    rw [priceOutRow_zero objective r hrw]
    linarith

theorem prices_setObjective (h : t.IsSolved) (hc : costs.length = t.columnCount) :
    (t.setObjective 0 costs).Prices costs := by
  have hw : (⟨costs.map (-·), 0⟩ : Row ℚ).entries.length = t.columnCount := by simpa using hc
  obtain ⟨hlen, hle⟩ := abs_entry_foldl_priceOutRow_le h le_rfl (fun _ hr => hr) hw
  refine ⟨hlen, fun s hs => abs_nonpos_iff.mp (hle s hs (Or.inl hs)), fun z hz => ?_⟩
  have hneg : Row.value ⟨costs.map (-·), 0⟩ z = -combine costs z := by
    rw [Row.value, combine, combine, List.length_map, ← Finset.sum_neg_distrib]
    refine Finset.sum_congr rfl fun j _ => ?_
    rw [← neg_zero, List.getD_map, neg_zero, neg_mul]
  have hval := value_foldl_priceOutRow h (fun _ hr => hr) hw hz
  rw [hneg] at hval
  simp only [setObjective, objectiveValue]
  linarith

/-- Along an edge the costs change by the reduced cost of the column that grows. -/
theorem Prices.combine_edgePoint (hp : t.Prices costs) (h : t.IsSolved)
    {col : ℕ} {level : ℚ} (hcol : col < t.columnCount ∨ level = 0)
    (hb : ∀ r ∈ t.rows, r.basic ≠ col) :
    combine costs (t.edgePoint col level) = t.objectiveValue - t.reducedCost col * level := by
  have heq := hp.total _ (h.solves_edgePoint hcol hb)
  rw [Row.value_eq_sum hp.width, sum_edgePoint hp.reduced hcol] at heq
  rw [reducedCost]
  linarith

theorem Prices.combine_basicPoint (hp : t.Prices costs) (h : t.IsSolved) :
    combine costs t.basicPoint = t.objectiveValue := by
  have heq := hp.combine_edgePoint h (Or.inr rfl) fun _ hr => (h.basic_lt hr).ne
  rw [mul_zero, sub_zero] at heq
  exact heq

section Verdict

variable {sense : Sense} {allowed : ℕ → Bool}

/-- When no allowed column gains, each column takes its part from the value of a point without the
barred ones. -/
theorem sign_mul_entry_nonneg
    (hgain : ∀ col < t.columnCount, allowed col = true → t.gain sense col ≤ 0) {z : ℕ → ℚ}
    (hpos : ∀ j, 0 ≤ z j) (hbar : ∀ j, allowed j = false → z j = 0) {j : ℕ}
    (hj : j < t.columnCount) : 0 ≤ sense.sign * (t.objective.entry j * z j) := by
  cases hall : allowed j with
  | false => rw [hbar j hall, mul_zero, mul_zero]
  | true =>
    have hg := hgain j hj hall
    rw [gain_eq, reducedCost] at hg
    rw [← mul_assoc]
    exact mul_nonneg (by linarith) (hpos j)

/-- When no allowed column gains, no solution without the barred ones beats the basic solution. -/
theorem Prices.basicPoint_optimal (hp : t.Prices costs) (h : t.IsSolved)
    (hgain : ∀ col < t.columnCount, allowed col = true → t.gain sense col ≤ 0) {z : ℕ → ℚ}
    (hz : t.Solves z) (hpos : ∀ j, 0 ≤ z j) (hbar : ∀ j, allowed j = false → z j = 0) :
    sense.sign * combine costs z ≤ sense.sign * combine costs t.basicPoint := by
  have hsum : 0 ≤ sense.sign * t.objective.value z := by
    rw [Row.value_eq_sum hp.width, Finset.mul_sum]
    exact Finset.sum_nonneg fun j hj =>
      sign_mul_entry_nonneg hgain hpos hbar (Finset.mem_range.mp hj)
  have heq : combine costs z + t.objective.value z = t.objectiveValue :=
    hp.total z hz
  rw [hp.combine_basicPoint h, ← heq, mul_add]
  linarith

/-- A gaining column is not basic. -/
theorem Prices.basic_ne_of_gain_pos (hp : t.Prices costs) {col : ℕ}
    (hgain : 0 < t.gain sense col) : ∀ r ∈ t.rows, r.basic ≠ col := by
  rintro r hr rfl
  rw [gain_eq, reducedCost, hp.reduced r hr, mul_zero, neg_zero] at hgain
  exact lt_irrefl 0 hgain

/-- Along a gaining column that no row bounds, the costs exceed every bound. -/
theorem Prices.exists_edgePoint_beyond (hp : t.Prices costs) (h : t.IsSolved)
    {col : ℕ} (hcol : col < t.columnCount) (hgain : 0 < t.gain sense col) (bound : ℚ) :
    ∃ level, 0 ≤ level ∧
      sense.sign * bound < sense.sign * combine costs (t.edgePoint col level) := by
  have hb := hp.basic_ne_of_gain_pos hgain
  have hlen : ∀ level, sense.sign * combine costs (t.edgePoint col level) =
      sense.sign * t.objectiveValue + t.gain sense col * level := by
    intro level
    rw [hp.combine_edgePoint h (Or.inl hcol) hb, gain_eq]
    ring
  set distance := sense.sign * bound - sense.sign * t.objectiveValue
  refine ⟨(|distance| + 1) / t.gain sense col,
    div_nonneg (add_nonneg (abs_nonneg _) zero_le_one) hgain.le, ?_⟩
  rw [hlen, mul_div_cancel₀ _ hgain.ne']
  have := le_abs_self distance
  linarith

/-- An edge that no row bounds stays in the feasible region. -/
theorem edgePoint_feasible (h : t.IsSolved) (hf : t.IsFeasible) {col : ℕ}
    (hfree : ∀ r ∈ t.rows, r.entry col ≤ 0) {level : ℚ} (hl : 0 ≤ level) (j : ℕ) :
    0 ≤ t.edgePoint col level j :=
  h.edgePoint_nonneg hl (fun r hr =>
    (mul_nonpos_of_nonneg_of_nonpos hl (hfree r hr)).trans (hf r hr)) j

end Verdict

end Tableau

end LinearProgram
