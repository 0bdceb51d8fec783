import LinearProgram.Proofs.Combination
import LinearProgram.Proofs.Scan

/-! # Choosing a pivot

Both scans keep the best candidate so far. The entering column has the largest gain and the leaving
row the lowest ratio up to the tolerance, and each is the first of those that are as good. No
column enters when no allowed one gains more than the tolerance, and no row leaves when no entry of
the column exceeds it.
-/

namespace LinearProgram

namespace Sense

/-- Values of an objective are compared after multiplication by the sign of its sense. -/
def sign : Sense → ℚ
  | maximize => 1
  | minimize => -1

end Sense

theorem Objective.improves_iff (o : Objective ℚ) (x y : ℚ) :
    o.improves x y = true ↔ o.sense.sign * y < o.sense.sign * x := by
  obtain ⟨_, _ | _⟩ := o <;> simp [Objective.improves, Sense.sign]

namespace Tableau

theorem gain_eq (sense : Sense) (t : Tableau ℚ) (col : ℕ) :
    t.gain sense col = -(sense.sign * t.reducedCost col) := by
  cases sense <;> simp [gain, Sense.sign]

section Finding

variable {α : Type} [Scalar α] {tolerance : α}

theorem isSome_betterColumn (b x : ℕ × α) : (betterColumn tolerance (some b) x).isSome := by
  simp only [betterColumn]
  split <;> rfl

theorem isSome_lowerRatio (b x : ℕ × α) : (lowerRatio tolerance (some b) x).isSome := by
  simp only [lowerRatio]
  split <;> rfl

/-- No column enters exactly when no allowed one gains more than the tolerance. -/
theorem enteringColumn_eq_none_iff {sense : Sense} {allowed : ℕ → Bool} {t : Tableau α} :
    t.enteringColumn tolerance sense allowed = none ↔
      ∀ col < t.columnCount, allowed col = true → ¬ tolerance < t.gain sense col := by
  rw [enteringColumn, Option.map_eq_none_iff, Scan.foldl_eq_none_iff isSome_betterColumn,
    List.forall_mem_map]
  simp only [List.mem_filter, List.mem_range, betterColumn, ite_eq_right_iff, reduceCtorEq,
    imp_false, and_imp]

end Finding

variable {tolerance : ℚ}

theorem moves_betterColumn (tolerance : ℚ) :
    Scan.Moves tolerance tolerance Prod.snd (betterColumn tolerance) where
  start x := by simp only [betterColumn, WithBot.coe_lt_coe]
  move b x := rfl

theorem moves_lowerRatio (tolerance : ℚ) :
    Scan.Moves tolerance ⊥ (fun x => -x.2) (lowerRatio tolerance) where
  start x := by simp [lowerRatio]
  move b x := by
    have hiff : x.2 < b.2 - tolerance ↔ -b.2 + tolerance < -x.2 := by
      constructor <;> intro h <;> linarith
    simp only [lowerRatio, hiff]

section Entering

variable {sense : Sense} {allowed : ℕ → Bool} {t : Tableau ℚ} {col j : ℕ}

/-- Among the allowed columns the one that enters leads by its gain. -/
theorem enteringColumn_leads (h0 : 0 ≤ tolerance)
    (h : t.enteringColumn tolerance sense allowed = some col) :
    tolerance < t.gain sense col ∧ Scan.Leads tolerance Prod.snd
      (((List.range t.columnCount).filter allowed).map fun j => (j, t.gain sense j))
      (col, t.gain sense col) := by
  obtain ⟨b, hb, rfl⟩ := Option.map_eq_some_iff.mp h
  obtain ⟨hgt, hleads⟩ := (moves_betterColumn tolerance).leads h0 hb
  obtain ⟨j, -, rfl⟩ := List.mem_map.mp hleads.mem
  exact ⟨WithBot.coe_lt_coe.mp hgt, hleads⟩

theorem enteringColumn_some (h0 : 0 ≤ tolerance)
    (h : t.enteringColumn tolerance sense allowed = some col) :
    col < t.columnCount ∧ allowed col = true ∧ tolerance < t.gain sense col := by
  obtain ⟨hgt, hleads⟩ := enteringColumn_leads h0 h
  obtain ⟨j, hj, heq⟩ := List.mem_map.mp hleads.mem
  obtain rfl := (Prod.mk.inj heq).1
  obtain ⟨hlt, hall⟩ := List.mem_filter.mp hj
  exact ⟨List.mem_range.mp hlt, hall, hgt⟩

theorem enteringColumn_none (h : t.enteringColumn tolerance sense allowed = none)
    (hcol : col < t.columnCount) (hall : allowed col = true) : t.gain sense col ≤ tolerance :=
  not_lt.mp (enteringColumn_eq_none_iff.mp h col hcol hall)

/-- No allowed column gains more by more than the tolerance, and those before gain less. -/
theorem gain_le_of_enteringColumn (h0 : 0 ≤ tolerance)
    (h : t.enteringColumn tolerance sense allowed = some j) (hcol : col < t.columnCount)
    (hall : allowed col = true) : t.gain sense col ≤ t.gain sense j + tolerance ∧
      (col < j → t.gain sense col < t.gain sense j) := by
  obtain ⟨-, hleads⟩ := enteringColumn_leads h0 h
  have hmem := List.mem_map_of_mem (f := fun j => (j, t.gain sense j))
    (List.mem_filter.mpr ⟨List.mem_range.mpr hcol, hall⟩)
  have hsorted : (((List.range t.columnCount).filter allowed).map
      fun j => (j, t.gain sense j)).Pairwise fun x y => x.1 < y.1 :=
    List.pairwise_map.mpr (List.pairwise_lt_range.filter _)
  exact ⟨hleads.le _ hmem, hleads.lt_of_index_lt hsorted hmem⟩

end Entering

section Leaving

variable {ratios : List (Option ℚ)} {t : Tableau ℚ} {col row : ℕ}

/-- The numbered ratios, of the rows that have one. -/
theorem mem_zipIdx_filterMap {i : ℕ} {q : ℚ} :
    (i, q) ∈ ratios.zipIdx.filterMap (fun (ratio, i) => ratio.map (i, ·)) ↔
      ratios[i]? = some (some q) := by
  simp only [List.mem_filterMap, Prod.exists, List.mem_zipIdx_iff_getElem?, Option.map_eq_some_iff,
    Prod.mk.injEq]
  constructor
  · rintro ⟨ratio, k, hk, q', rfl, rfl, rfl⟩
    exact hk
  · intro h
    exact ⟨some q, i, h, q, rfl, rfl, rfl⟩

theorem pairwise_zipIdx_filterMap : (ratios.zipIdx.filterMap
    (fun (ratio, i) => ratio.map (i, ·))).Pairwise fun x y => x.1 < y.1 := by
  have hindex : ratios.zipIdx.Pairwise fun x y => x.2 < y.2 := by
    rw [← List.pairwise_map, List.zipIdx_map_snd]
    exact List.pairwise_lt_range'
  refine List.pairwise_filterMap.mpr (hindex.imp fun {x y} hlt p hp q hq => ?_)
  obtain ⟨-, -, rfl⟩ := Option.map_eq_some_iff.mp hp
  obtain ⟨-, -, rfl⟩ := Option.map_eq_some_iff.mp hq
  exact hlt

theorem getElem?_ratios (t : Tableau ℚ) (col i : ℕ) :
    (t.ratios tolerance col)[i]? = t.rows[i]?.map fun r =>
      if tolerance < r.entry col then some (r.solution / r.entry col) else none := by
  simp [Tableau.ratios]

theorem getElem?_ratios_eq_some_iff {i : ℕ} {q : ℚ} :
    (t.ratios tolerance col)[i]? = some (some q) ↔ ∃ r, t.rows[i]? = some r ∧
      tolerance < r.entry col ∧ q = r.solution / r.entry col := by
  rw [getElem?_ratios, Option.map_eq_some_iff]
  refine exists_congr fun r => and_congr_right fun _ => ?_
  split
  · next hpos => simp [hpos, eq_comm]
  · next hpos => simp [hpos]

/-- Among the rows that have a ratio the one that leaves leads by its low ratio: the other ratios
are no lower by more than the tolerance, and those before are higher. -/
theorem leavingRow_leads (h0 : 0 ≤ tolerance)
    (h : leavingRow tolerance (t.ratios tolerance col) = some row) :
    ∃ r, t.rows[row]? = some r ∧ tolerance < r.entry col ∧
      ∀ k s, t.rows[k]? = some s → tolerance < s.entry col →
        r.solution / r.entry col - tolerance ≤ s.solution / s.entry col ∧
          (k < row → r.solution / r.entry col < s.solution / s.entry col) := by
  obtain ⟨⟨i, q⟩, hb, rfl⟩ := Option.map_eq_some_iff.mp h
  obtain ⟨-, hleads⟩ := (moves_lowerRatio tolerance).leads h0 hb
  obtain ⟨r, hr, hpos, rfl⟩ :=
    getElem?_ratios_eq_some_iff.mp (mem_zipIdx_filterMap.mp hleads.mem)
  refine ⟨r, hr, hpos, fun k s hs hspos => ?_⟩
  have hmem := mem_zipIdx_filterMap.mpr (getElem?_ratios_eq_some_iff.mpr ⟨s, hs, hspos, rfl⟩)
  have hle : -(s.solution / s.entry col) ≤ -(r.solution / r.entry col) + tolerance :=
    hleads.le _ hmem
  have hlt : k < i → -(s.solution / s.entry col) < -(r.solution / r.entry col) :=
    hleads.lt_of_index_lt pairwise_zipIdx_filterMap hmem
  exact ⟨by linarith only [hle], fun hk => neg_lt_neg_iff.mp (hlt hk)⟩

theorem leavingRow_some (h0 : 0 ≤ tolerance)
    (h : leavingRow tolerance (t.ratios tolerance col) = some row) :
    ∃ r, t.rows[row]? = some r ∧ tolerance < r.entry col ∧
      ∀ s ∈ t.rows, tolerance < s.entry col →
        r.solution / r.entry col - tolerance ≤ s.solution / s.entry col := by
  obtain ⟨r, hr, hpos, hlow⟩ := leavingRow_leads h0 h
  refine ⟨r, hr, hpos, fun s hs hspos => ?_⟩
  obtain ⟨k, hk⟩ := List.mem_iff_getElem?.mp hs
  exact (hlow k s hk hspos).1

/-- No row leaves exactly when no entry of the column exceeds the tolerance. -/
theorem leavingRow_eq_none_iff : leavingRow tolerance (t.ratios tolerance col) = none ↔
    ∀ r ∈ t.rows, r.entry col ≤ tolerance := by
  rw [leavingRow, Option.map_eq_none_iff, Scan.foldl_eq_none_iff isSome_lowerRatio]
  constructor
  · intro h r hr
    by_contra hpos
    obtain ⟨i, hi⟩ := List.mem_iff_getElem?.mp hr
    have hmem := mem_zipIdx_filterMap.mpr
      (getElem?_ratios_eq_some_iff.mpr ⟨r, hi, not_le.mp hpos, rfl⟩)
    cases h _ hmem
  · rintro h ⟨i, q⟩ hmem
    obtain ⟨r, hr, hpos, -⟩ := getElem?_ratios_eq_some_iff.mp (mem_zipIdx_filterMap.mp hmem)
    exact absurd hpos (h r (List.mem_of_getElem? hr)).not_gt

theorem leavingRow_none (h : leavingRow tolerance (t.ratios tolerance col) = none)
    {r : BasicRow ℚ} (hr : r ∈ t.rows) : r.entry col ≤ tolerance :=
  leavingRow_eq_none_iff.mp h r hr

end Leaving

/-- What the two scans of a pivot choose, near ties included. Some column enters unless none gains
more than the tolerance; no allowed one gains more by more than the tolerance, and all before it
gain less. Some row leaves unless no entry of the column exceeds the tolerance; no ratio is lower by
more than the tolerance, and all before it are higher. -/
theorem selection_upTo_tolerance (h0 : 0 ≤ tolerance) (t : Tableau ℚ) :
    (∀ (sense : Sense) (allowed : ℕ → Bool),
      (t.enteringColumn tolerance sense allowed = none ↔
        ∀ col < t.columnCount, allowed col = true → t.gain sense col ≤ tolerance) ∧
      ∀ j, t.enteringColumn tolerance sense allowed = some j →
        j < t.columnCount ∧ allowed j = true ∧ tolerance < t.gain sense j ∧
          ∀ col < t.columnCount, allowed col = true →
            t.gain sense col ≤ t.gain sense j + tolerance ∧
              (col < j → t.gain sense col < t.gain sense j)) ∧
    ∀ col : ℕ,
      ((∃ row, leavingRow tolerance (t.ratios tolerance col) = some row) ↔
        ∃ r ∈ t.rows, tolerance < r.entry col) ∧
      ∀ row, leavingRow tolerance (t.ratios tolerance col) = some row →
        ∃ r, t.rows[row]? = some r ∧ tolerance < r.entry col ∧
          ∀ k s, t.rows[k]? = some s → tolerance < s.entry col →
            r.solution / r.entry col - tolerance ≤ s.solution / s.entry col ∧
              (k < row → r.solution / r.entry col < s.solution / s.entry col) := by
  refine ⟨fun sense allowed => ⟨?_, fun j hj => ?_⟩, fun col => ⟨?_, fun row => ?_⟩⟩
  · simp only [enteringColumn_eq_none_iff, not_lt]
  · obtain ⟨hlt, hall, hgt⟩ := enteringColumn_some h0 hj
    exact ⟨hlt, hall, hgt, fun col => gain_le_of_enteringColumn h0 hj⟩
  · rw [← Option.ne_none_iff_exists', ne_eq, leavingRow_eq_none_iff]
    simp only [not_forall, not_le, exists_prop]
  · exact leavingRow_leads h0

/-- Gains and ratios of which each nearly ties with the next. -/
def nearTies : Tableau ℚ where
  columns := ["x1", "x2", "x3", "x4"].map (⟨·, .decision⟩)
  rows := [⟨⟨[2, 0, 0, 0], 20⟩, 1⟩, ⟨⟨[2, 0, 0, 0], 19⟩, 2⟩, ⟨⟨[2, 0, 0, 0], 17⟩, 3⟩,
    ⟨⟨[2, 0, 0, 0], 76 / 5⟩, 0⟩]
  objective := ⟨[-2, -5 / 2, -16 / 5, -41 / 10], 0⟩

/-- The third column enters though the fourth gains more, and the third row leaves though the fourth
has a lower ratio. -/
theorem selection_nearTies : (0 : ℚ) ≤ 1 ∧
    nearTies.enteringColumn 1 .maximize (fun _ => true) = some 2 ∧
    nearTies.gain .maximize 2 < nearTies.gain .maximize 3 ∧
    nearTies.gain .maximize 3 ≤ nearTies.gain .maximize 2 + 1 ∧
    nearTies.gain .maximize 0 < nearTies.gain .maximize 2 ∧
    leavingRow 1 (nearTies.ratios 1 0) = some 2 ∧
    ∃ r : BasicRow ℚ, nearTies.rows[2]? = some r ∧ 1 < r.entry 0 ∧
      ∀ (k : ℕ) (s : BasicRow ℚ), nearTies.rows[k]? = some s → 1 < s.entry 0 →
        r.solution / r.entry 0 - 1 ≤ s.solution / s.entry 0 ∧
          (k < 2 → r.solution / r.entry 0 < s.solution / s.entry 0) := by
  have h0 : (0 : ℚ) ≤ 1 := by decide +kernel
  have hcol : nearTies.enteringColumn 1 .maximize (fun _ => true) = some 2 := by decide +kernel
  have hrow : leavingRow 1 (nearTies.ratios 1 0) = some 2 := by decide +kernel
  obtain ⟨hcolumns, hrows⟩ := selection_upTo_tolerance h0 nearTies
  obtain ⟨-, -, -, hgain⟩ := (hcolumns _ _).2 2 hcol
  exact ⟨h0, hcol, by decide +kernel, (hgain 3 (by decide) rfl).1,
    (hgain 0 (by decide) rfl).2 (by decide), hrow, (hrows 0).2 2 hrow⟩

end Tableau

end LinearProgram
