import LinearProgram.Proofs.RecordInvariant
import LinearProgram.Proofs.RecordedSystem
import LinearProgram.Proofs.TracePrefix
import Mathlib.Data.List.Forall2

/-! # The trace and the snapshots of a solve

A solve adds to its trace and to its snapshots apart, and both tell one story. The trace points to
snapshots in order; a pivot in the trace stands behind the choice of its column and its row, and the
snapshot that it points to shows this pivot. The snapshots to which nothing points are those in
which the trace says that an artificial was replaced.
-/

namespace LinearProgram

variable {α : Type}

namespace Event

/-- The snapshot that an event points to. -/
def tableau? : Event α → Option ℕ
  | .initialTableau tableau => some tableau
  | .pivot _ _ _ _ _ _ _ _ tableau => some tableau
  | _ => none

def pivotIteration? : Event α → Option ℕ
  | .pivot iteration .. => some iteration
  | _ => none

/-- The iteration of a ratio test that finds a leaving row. -/
def leavingIteration? : Event α → Option ℕ
  | .ratioTest iteration _ (some _) _ => some iteration
  | _ => none

/-- The row in which an artificial is replaced, its name and the name of the replacement. -/
def replaced? : Event α → Option (ℕ × String × String)
  | .artificialDrivenOut row artificial (some replacement) => some (row, artificial, replacement)
  | _ => none

/-- The event tells of no step that is recorded as a snapshot. -/
def IsSilent (e : Event α) : Prop :=
  e.tableau? = none ∧ e.pivotIteration? = none ∧ e.leavingIteration? = none ∧ e.replaced? = none

end Event

/-- The snapshots whose positions are not listed, in order. -/
def Snapshot.besides (positions : List ℕ) (tableaus : List (Snapshot α)) : List (Snapshot α) :=
  (tableaus.zipIdx.filter fun (_, i) => i ∉ positions).map (·.1)

/-- The snapshot shows that a column has replaced an artificial in a row. -/
structure Snapshot.ShowsReplacement (snapshot : Snapshot α) (replaced : ℕ × String × String) :
    Prop where
  leavingRow_eq : snapshot.leavingRow = some replaced.1
  entering_eq : snapshot.enteringColumn.bind (snapshot.columns[·]?) = some replaced.2.2
  description_eq : snapshot.description =
    replaced.2.2 ++ " replaces " ++ replaced.2.1 ++ " in the basis"

/-- The trace and the snapshots tell one story of this number of pivots. -/
structure Trace.Matches (trace : Trace α) (tableaus : List (Snapshot α)) (iterations : ℕ) :
    Prop where
  inRange : ∀ i ∈ trace.filterMap Event.tableau?, i < tableaus.length
  increasing : (trace.filterMap Event.tableau?).Pairwise (· < ·)
  /-- Directly before a pivot stand the choice of its column and the test that finds its row, and
  the snapshot shows this pivot with the ratios of this test. -/
  pivots : ∀ before iteration row column element entering leaving was becomes tableau,
    before ++ [.pivot iteration row column element entering leaving was becomes tableau] <+: trace →
      ∃ earlier cost ratios snapshot,
        before = earlier ++ [.enteringVariable iteration column entering cost,
          .ratioTest iteration ratios (some row) (some leaving)] ∧
        tableaus[tableau]? = some snapshot ∧ snapshot.iteration = iteration ∧
        snapshot.leavingRow = some row ∧ snapshot.enteringColumn = some column ∧
        snapshot.pivotElement = some element ∧ snapshot.ratios = ratios
  /-- The pivots are numbered from one. -/
  iterations_eq : trace.filterMap Event.pivotIteration? = List.range' 1 iterations
  /-- No two tests of one iteration find a leaving row. -/
  tests_eq : trace.filterMap Event.leavingIteration? = List.range' 1 iterations
  /-- The other snapshots are those of replaced artificials. -/
  replacements : List.Forall₂ Snapshot.ShowsReplacement
    (Snapshot.besides (trace.filterMap Event.tableau?) tableaus) (trace.filterMap Event.replaced?)

namespace Snapshot

variable {positions : List ℕ} {tableaus : List (Snapshot α)}

theorem besides_concat (hrange : ∀ i ∈ positions, i < tableaus.length) (snapshot : Snapshot α) :
    besides positions (tableaus ++ [snapshot]) = besides positions tableaus ++ [snapshot] := by
  have hnew : tableaus.length ∉ positions := fun h => absurd (hrange _ h) (lt_irrefl _)
  simp [besides, List.zipIdx_append, hnew]

theorem besides_concat_listed (positions : List ℕ) (snapshot : Snapshot α) :
    besides (positions ++ [tableaus.length]) (tableaus ++ [snapshot]) =
      besides positions tableaus := by
  have hold : ∀ a ∈ tableaus.zipIdx, decide (a.2 ∉ positions ++ [tableaus.length]) =
      decide (a.2 ∉ positions) := by
    intro a ha
    have hlt := List.snd_lt_of_mem_zipIdx ha
    rw [decide_eq_decide, List.mem_append, List.mem_singleton]
    simp only [Nat.add_zero] at hlt
    simp [hlt.ne]
  rw [besides, besides, List.zipIdx_append, List.filter_append, List.filter_congr hold]
  simp

end Snapshot

theorem Trace.filterMap_append_of_eq_nil {β : Type} {f : Event α → Option β} {trace l : Trace α}
    (h : l.filterMap f = []) : (trace ++ l).filterMap f = trace.filterMap f := by
  rw [List.filterMap_append, h, List.append_nil]

namespace Trace.Matches

theorem nil : Trace.Matches ([] : Trace α) [] 0 where
  inRange := by simp
  increasing := .nil
  pivots := by simp
  iterations_eq := rfl
  tests_eq := rfl
  replacements := .nil

variable {trace : Trace α} {tableaus : List (Snapshot α)} {iterations : ℕ}
  (h : trace.Matches tableaus iterations)

include h

/-- What stands before a pivot is not changed by what is added behind it. -/
theorem pivots_append {l : Trace α} (hl : ∀ e ∈ l, e.pivotIteration? = none)
    (more : List (Snapshot α)) {before : Trace α} {iteration row column : ℕ} {element : α}
    {entering leaving : String} {was becomes : α} {tableau : ℕ}
    (hstands : before ++ [.pivot iteration row column element entering leaving was becomes tableau]
      <+: trace ++ l) :
    ∃ earlier cost ratios snapshot,
      before = earlier ++ [.enteringVariable iteration column entering cost,
        .ratioTest iteration ratios (some row) (some leaving)] ∧
      (tableaus ++ more)[tableau]? = some snapshot ∧ snapshot.iteration = iteration ∧
      snapshot.leavingRow = some row ∧ snapshot.enteringColumn = some column ∧
      snapshot.pivotElement = some element ∧ snapshot.ratios = ratios := by
  have hnot : Event.pivot iteration row column element entering leaving was becomes tableau ∉ l :=
    fun hmem => Option.some_ne_none _ (hl _ hmem)
  obtain ⟨earlier, cost, ratios, snapshot, hbefore, hget, hshows⟩ :=
    h.pivots _ _ _ _ _ _ _ _ _ _ (stands_left_of_not_mem hstands hnot)
  refine ⟨earlier, cost, ratios, snapshot, hbefore, ?_, hshows⟩
  rw [List.getElem?_append_left (List.getElem?_eq_some_iff.mp hget).1, hget]

theorem note {e : Event α} (he : e.IsSilent) : (trace ++ [e]).Matches tableaus iterations := by
  obtain ⟨htableau, hpivot, htest, hreplaced⟩ := he
  have hsame : ∀ {β : Type} {f : Event α → Option β}, f e = none →
      (trace ++ [e]).filterMap f = trace.filterMap f := fun hf =>
    filterMap_append_of_eq_nil (by simp [hf])
  refine ⟨?_, ?_, ?_, ?_, ?_, ?_⟩
  · rw [hsame htableau]
    exact h.inRange
  · rw [hsame htableau]
    exact h.increasing
  · intro before iteration row column element entering leaving was becomes tableau hstands
    simpa using h.pivots_append (by simpa using hpivot) [] hstands
  · rw [hsame hpivot, h.iterations_eq]
  · rw [hsame htest, h.tests_eq]
  · rw [hsame htableau, hsame hreplaced]
    exact h.replacements

theorem notes {l : Trace α} (hl : ∀ e ∈ l, e.IsSilent) :
    (trace ++ l).Matches tableaus iterations := by
  induction l generalizing trace with
  | nil => rwa [List.append_nil]
  | cons e l ih =>
    obtain ⟨he, hrest⟩ := List.forall_mem_cons.mp hl
    rw [List.append_cons]
    exact ih (h.note he) hrest

/-- A snapshot is added together with events of which one points to it. -/
theorem point {l : Trace α} (hl : l.filterMap Event.tableau? = [tableaus.length])
    (snapshot : Snapshot α) :
    (∀ i ∈ (trace ++ l).filterMap Event.tableau?, i < (tableaus ++ [snapshot]).length) ∧
      ((trace ++ l).filterMap Event.tableau?).Pairwise (· < ·) ∧
      Snapshot.besides ((trace ++ l).filterMap Event.tableau?) (tableaus ++ [snapshot]) =
        Snapshot.besides (trace.filterMap Event.tableau?) tableaus := by
  rw [List.filterMap_append, hl, List.length_append]
  refine ⟨fun i hi => ?_, ?_, Snapshot.besides_concat_listed _ _⟩
  · rcases List.mem_append.mp hi with hi | hi
    · exact (h.inRange i hi).trans_le (Nat.le_add_right _ _)
    · rw [List.mem_singleton.mp hi]
      exact Nat.lt_succ_self _
  · rw [List.pairwise_append]
    refine ⟨h.increasing, List.pairwise_singleton _ _, fun i hi j hj => ?_⟩
    rw [List.mem_singleton.mp hj]
    exact h.inRange i hi

theorem start (snapshot : Snapshot α) :
    (trace ++ [Event.initialTableau tableaus.length]).Matches (tableaus ++ [snapshot])
      iterations := by
  obtain ⟨hrange, hincreasing, hbesides⟩ :=
    h.point (l := [Event.initialTableau tableaus.length]) rfl snapshot
  refine ⟨hrange, hincreasing, ?_, ?_, ?_, ?_⟩
  · intro before iteration row column element entering leaving was becomes tableau hstands
    exact h.pivots_append (by simp [Event.pivotIteration?]) [snapshot] hstands
  · rw [filterMap_append_of_eq_nil rfl, h.iterations_eq]
  · rw [filterMap_append_of_eq_nil rfl, h.tests_eq]
  · rw [hbesides, filterMap_append_of_eq_nil rfl]
    exact h.replacements

/-- A pivot is added behind its choice, with a snapshot that shows it. -/
theorem pivot {row column : ℕ} {element : α} {ratios : List (Option α)} (cost was becomes : α)
    (entering leaving : String) {a : Snapshot α}
    (hiteration : a.iteration = iterations + 1) (hrow : a.leavingRow = some row)
    (hcolumn : a.enteringColumn = some column)
    (helement : a.pivotElement = some element) (hratios : a.ratios = ratios) :
    (trace ++ [Event.enteringVariable (iterations + 1) column entering cost,
        .ratioTest (iterations + 1) ratios (some row) (some leaving),
        .pivot (iterations + 1) row column element entering leaving was becomes
          tableaus.length]).Matches (tableaus ++ [a]) (iterations + 1) := by
  obtain ⟨hrange, hincreasing, hbesides⟩ :=
    h.point (l := [Event.enteringVariable (iterations + 1) column entering cost,
      .ratioTest (iterations + 1) ratios (some row) (some leaving),
      .pivot (iterations + 1) row column element entering leaving was becomes
        tableaus.length]) rfl a
  have hsplit : trace ++ [Event.enteringVariable (iterations + 1) column entering cost,
      .ratioTest (iterations + 1) ratios (some row) (some leaving),
      .pivot (iterations + 1) row column element entering leaving was becomes tableaus.length] =
      (trace ++ [.enteringVariable (iterations + 1) column entering cost,
        .ratioTest (iterations + 1) ratios (some row) (some leaving)]) ++
      [.pivot (iterations + 1) row column element entering leaving was becomes
        tableaus.length] := by simp
  have hnext : List.range' 1 iterations ++ [iterations + 1] = List.range' 1 (iterations + 1) := by
    rw [List.range'_concat, Nat.one_mul, Nat.add_comm]
  refine ⟨hrange, hincreasing, ?_, ?_, ?_, ?_⟩
  · intro before iteration row' column' element' entering' leaving' was' becomes' tableau hstands
    rcases List.prefix_concat_iff.mp (hsplit ▸ hstands) with hlast | hearlier
    · obtain ⟨rfl, hpivot⟩ := List.append_inj' hlast rfl
      simp only [List.cons.injEq, Event.pivot.injEq, and_true] at hpivot
      obtain ⟨rfl, rfl, rfl, rfl, rfl, rfl, rfl, rfl, rfl⟩ := hpivot
      exact ⟨trace, cost, ratios, a, rfl, List.getElem?_concat_length, hiteration, hrow,
        hcolumn, helement, hratios⟩
    · exact h.pivots_append (by simp [Event.pivotIteration?]) [a] hearlier
  · rw [List.filterMap_append, h.iterations_eq]
    exact hnext
  · rw [List.filterMap_append, h.tests_eq]
    exact hnext
  · rw [hbesides, filterMap_append_of_eq_nil rfl]
    exact h.replacements

theorem replace {row : ℕ} {artificial replacement : String} {snapshot : Snapshot α}
    (hshows : snapshot.ShowsReplacement (row, artificial, replacement)) :
    (trace ++ [Event.artificialDrivenOut row artificial (some replacement)]).Matches
      (tableaus ++ [snapshot]) iterations := by
  have hsame : (trace ++ [Event.artificialDrivenOut row artificial (some replacement)]).filterMap
      Event.tableau? = trace.filterMap Event.tableau? := filterMap_append_of_eq_nil rfl
  refine ⟨fun i hi => ?_, ?_, ?_, ?_, ?_, ?_⟩
  · rw [hsame] at hi
    rw [List.length_append]
    exact (h.inRange i hi).trans_le (Nat.le_add_right _ _)
  · rw [hsame]
    exact h.increasing
  · intro before iteration row column element entering leaving was becomes tableau hstands
    exact h.pivots_append (by simp [Event.pivotIteration?]) [snapshot] hstands
  · rw [filterMap_append_of_eq_nil rfl, h.iterations_eq]
  · rw [filterMap_append_of_eq_nil rfl, h.tests_eq]
  · rw [hsame, Snapshot.besides_concat h.inRange, List.filterMap_append]
    exact List.rel_append h.replacements (.cons hshows .nil)

end Trace.Matches

theorem Event.IsRemark.isSilent {e : Event α} (h : e.IsRemark) : e.IsSilent := by
  cases e <;> first | exact h.elim | exact ⟨rfl, rfl, rfl, rfl⟩

variable [Scalar α]

/-- A column that replaces an artificial is one of the tableau. -/
theorem DriveOut.IsStep.showsReplacement {tolerance : α} {d : DriveOut α} {col : ℕ}
    (hd : d.IsStep tolerance) (hcol : d.column = some col) (iteration : ℕ) :
    (d.snapshot iteration col).ShowsReplacement
      (d.row, d.artificial, d.after.columnName col) := by
  obtain ⟨r, -, -, hreplacement⟩ := hd.artificial
  have hafter := hd.after_eq
  rw [hcol] at hreplacement hafter
  have hlt : col < d.after.columnNames.length := by
    have hmem := List.mem_range.mp (List.mem_of_find?_eq_some hreplacement)
    simpa [hafter, Tableau.columnNames, Tableau.columnCount] using hmem
  refine ⟨rfl, ?_, rfl⟩
  change d.after.columnNames[col]? = some ((d.after.columnNames[col]?).getD "")
  rw [List.getElem?_eq_getElem hlt, Option.getD_some]

namespace SimplexSettings

variable {s : SimplexSettings α} {p : Problem α}

theorem isSilent_of_mem_opening {e : Event α} (he : e ∈ (s.opening p).trace) : e.IsSilent := by
  simp only [opening, Problem.normalizations, List.mem_append, List.mem_cons, List.not_mem_nil,
    or_false, List.mem_filterMap] at he
  obtain ((rfl | rfl) | ⟨⟨c, i⟩, -, hc⟩) | rfl := he
  · exact ⟨rfl, rfl, rfl, rfl⟩
  · exact ⟨rfl, rfl, rfl, rfl⟩
  · obtain ⟨-, rfl⟩ : _ ∧ _ = e := by simpa using hc
    exact ⟨rfl, rfl, rfl, rfl⟩
  · exact ⟨rfl, rfl, rfl, rfl⟩

theorem matches_opening (s : SimplexSettings α) (p : Problem α) :
    (s.opening p).trace.Matches (s.opening p).tableaus (s.opening p).iterations :=
  Trace.Matches.nil.notes fun _ he => isSilent_of_mem_opening he

/-- Every step of a solve adds to the trace and to the snapshots in step. -/
theorem keeps_matches (s : SimplexSettings α) (p : Problem α) :
    s.Keeps p fun _ r => r.trace.Matches r.tableaus r.iterations where
  note he hr := hr.note he.isSilent
  write _ hr := hr
  start _ _ hr := hr.start _
  pivot {r phase leg d} _ _ hr := by
    have hpivot := hr.pivot (d.before.reducedCost d.column) d.before.objectiveValue
      d.after.objectiveValue d.entering d.leaving rfl rfl rfl rfl rfl
      (a := Record.pivotSnapshot phase (r.iterations + 1) d)
    simp only [Record.addPivot, Record.choose, Record.note, List.append_assoc]
    exact hpivot
  close {r phase leg} _ hr := by
    rw [Record.close]
    cases leg.stage.ending with
    | optimal => exact hr.note ⟨rfl, rfl, rfl, rfl⟩
    | outOfPivots => exact hr.note ⟨rfl, rfl, rfl, rfl⟩
    | unbounded column ratios =>
      exact ((hr.note ⟨rfl, rfl, rfl, rfl⟩).note ⟨rfl, rfl, rfl, rfl⟩).note ⟨rfl, rfl, rfl, rfl⟩
  driveOut {r d} hd hr := by
    rw [Record.addDriveOut]
    cases hcol : d.column with
    | none => exact hr.note ⟨rfl, rfl, rfl, rfl⟩
    | some col =>
      exact hr.replace ((isStep_of_mem_driveOuts hd).showsReplacement hcol r.iterations)

/-- A problem is solved, and the trace and the snapshots of the solve tell one story. -/
theorem solve_matches (hv : p.validate = .ok ()) : ∃ solution, s.solve p = .ok solution ∧
    solution.trace.Matches solution.tableaus solution.iterations := by
  obtain ⟨r, hr, hread⟩ := (keeps_matches s p).run (matches_opening s p)
  refine ⟨_, solve_of_validate hv, ?_⟩
  rw [hread.trace_eq, hread.tableaus_eq, hread.iterations_eq]
  exact hr

/-- The penalty stage and both phases each start from a snapshot, and the one snapshot that the
trace does not point to is that of the replaced artificial. -/
theorem solve_matches_crossingProblem : crossingProblem.validate = .ok () ∧
    ∃ solution, (⟨none, 0, .bigM, -1⟩ : SimplexSettings ℚ).solve crossingProblem = .ok solution ∧
      solution.trace.Matches solution.tableaus solution.iterations ∧
      solution.trace.filterMap Event.tableau? = [0, 1, 2, 3, 5] ∧
      solution.trace.filterMap Event.pivotIteration? = [1, 2] ∧
      solution.trace.filterMap Event.replaced? = [(1, "a2", "x2")] := by
  have hv : crossingProblem.validate = .ok () := by decide +kernel
  obtain ⟨solution, hsolve, hmatches⟩ := solve_matches (s := ⟨none, 0, .bigM, -1⟩) hv
  obtain ⟨-, rfl⟩ := validate_of_solve hsolve
  exact ⟨hv, _, hsolve, hmatches, by decide +kernel, by decide +kernel, by decide +kernel⟩

end SimplexSettings

end LinearProgram
