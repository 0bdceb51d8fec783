import LinearProgram.Proofs.Caps
import LinearProgram.Proofs.TraceTableaus

/-! # Counting pivots

A solve pivots in its pivot loops and where it replaces an artificial behind the first phase. The
iterations, in total and in each snapshot, are the pivots of the pivot loops, and the cap bounds
these. The replaced artificials come on top, at most one for each constraint.
-/

namespace LinearProgram

variable {α : Type}

namespace Snapshot

/-- The snapshot shows a pivot of a pivot loop or a replaced artificial. -/
def hasPivot (a : Snapshot α) : Bool := a.pivotElement.isSome

/-- The snapshot shows a pivot of a pivot loop, the only kind that compares ratios. -/
def isIteration (a : Snapshot α) : Bool := a.hasPivot && !a.ratios.isEmpty

end Snapshot

/-- The iterations count the pivots of the pivot loops, all of them and those up to each snapshot;
every other pivot replaces an artificial. -/
structure Trace.Counts (trace : Trace α) (tableaus : List (Snapshot α)) (iterations : ℕ) :
    Prop where
  iterations_eq : iterations = tableaus.countP Snapshot.isIteration
  numbered : ∀ i a, tableaus[i]? = some a →
    a.iteration = (tableaus.take (i + 1)).countP Snapshot.isIteration
  pivots_eq : tableaus.countP Snapshot.hasPivot =
    iterations + (trace.filterMap Event.replaced?).length

namespace Trace.Counts

variable {trace : Trace α} {tableaus : List (Snapshot α)} {iterations : ℕ}
  (h : trace.Counts tableaus iterations)

include h

theorem note {e : Event α} (he : e.replaced? = none) :
    (trace ++ [e]).Counts tableaus iterations := by
  refine ⟨h.iterations_eq, h.numbered, ?_⟩
  rw [filterMap_append_of_eq_nil (by simp [he]), h.pivots_eq]

/-- A snapshot is added together with events that tell of a replaced artificial if it shows one. -/
theorem keep {l : Trace α} {a : Snapshot α} {total : ℕ} (hiteration : a.iteration = total)
    (htotal : total = iterations + a.isIteration.toNat)
    (hl : (l.filterMap Event.replaced?).length = (a.hasPivot && a.ratios.isEmpty).toNat) :
    (trace ++ l).Counts (tableaus ++ [a]) total := by
  have hcount : total = (tableaus ++ [a]).countP Snapshot.isIteration := by
    rw [List.countP_append, ← h.iterations_eq, htotal]
    cases ha : a.isIteration <;> simp [ha]
  refine ⟨hcount, fun i b hb => ?_, ?_⟩
  · rcases Nat.lt_or_ge i tableaus.length with hi | hi
    · rw [List.getElem?_append_left hi] at hb
      rw [List.take_append_of_le_length hi, h.numbered i b hb]
    · -- Only the new snapshot stands behind the others.
      have hlt := (List.getElem?_eq_some_iff.mp hb).1
      rw [List.length_append, List.length_singleton] at hlt
      obtain rfl : i = tableaus.length := by omega
      obtain rfl := Option.some.inj (List.getElem?_concat_length.symm.trans hb)
      rw [List.take_of_length_le (by simp), hiteration, hcount]
  · rw [List.countP_append, h.pivots_eq, List.filterMap_append, List.length_append, hl, htotal]
    simp only [Snapshot.isIteration, List.countP_singleton]
    cases a.hasPivot <;> cases a.ratios.isEmpty <;> simp <;> omega

end Trace.Counts

variable [Scalar α]

/-- A pivot compares the ratios of some rows. -/
theorem Goal.IsStep.isEmpty_ratios {goal : Goal α} {d : Pivot α} (h : goal.IsStep d) :
    d.ratios.isEmpty = false := by
  cases hratios : d.ratios with
  | nil =>
    have hrow := h.leaving
    rw [hratios] at hrow
    cases hrow
  | cons ratio ratios => rfl

/-- What a trace tells of a row whose artificial is replaced. -/
def DriveOut.replaced? (d : DriveOut α) : Option (ℕ × String × String) :=
  d.column.map fun col => (d.row, d.artificial, d.after.columnName col)

/-- A pass goes through each row once. -/
theorem Tableau.length_driveOut_le (tolerance : α) (t : Tableau α) (rows : List ℕ) :
    (t.driveOut tolerance rows).length ≤ rows.length := by
  refine driveOut_induction tolerance (motive := fun _ rows pass => pass.length ≤ rows.length)
    ?_ ?_ ?_ ?_ t rows
  · exact fun _ => le_rfl
  · exact fun _ _ _ _ _ ih => Nat.le_succ_of_le ih
  · exact fun _ _ _ _ _ _ _ _ ih => Nat.succ_le_succ ih
  · exact fun _ _ _ _ _ _ _ _ _ ih => Nat.succ_le_succ ih

theorem Leg.length_rows_final (leg : Leg α) :
    leg.stage.final.rows.length = leg.loaded.rows.length := by
  refine Goal.run_invariant (fun t => t.rows.length = leg.loaded.rows.length) rfl fun d hd h => ?_
  rw [(Goal.isStep_of_mem_run d hd).after_eq, Tableau.length_rows_pivot, h]

namespace Move

/-- The replaced artificial that a move tells of. -/
def replaced? : Move α → Option (ℕ × String × String)
  | note e => e.replaced?
  | driveOut d => d.replaced?
  | _ => none

theorem filterMap_replaced?_events (m : Move α) (iterations tableaus : ℕ) :
    (m.events iterations tableaus).filterMap Event.replaced? = m.replaced?.toList := by
  cases m with
  | note e => cases h : e.replaced? <;> simp [events, replaced?, h]
  | driveOut d => cases h : d.column <;> simp [events, replaced?, DriveOut.replaced?,
      Event.replaced?, h]
  | _ => rfl

omit [Scalar α] in
theorem replaced?_closing (limit : ℕ) (stage : Stage α) :
    (closing limit stage).replaced? = none := by
  rw [closing]
  cases stage.ending <;> rfl

end Move

theorem Story.filterMap_replaced?_foldl_make (moves : List (Move α)) (story : Story α) :
    (moves.foldl make story).trace.filterMap Event.replaced? =
      story.trace.filterMap Event.replaced? ++ moves.filterMap Move.replaced? := by
  induction moves generalizing story with
  | nil => simp
  | cons m moves ih =>
    rw [List.foldl_cons, ih, make, List.filterMap_append, m.filterMap_replaced?_events,
      List.append_assoc]
    cases h : m.replaced? <;> simp [h]

namespace Leg

variable (leg : Leg α)

theorem replaced?_moves (phase : Option ℕ) (description : String) (limit : ℕ) :
    (leg.moves phase description limit).filterMap Move.replaced? = [] := by
  have hpivots : (leg.stage.pivots.map (Move.pivot phase)).filterMap Move.replaced? = [] := by
    rw [List.filterMap_map]
    exact List.filterMap_eq_nil_iff.mpr fun _ _ => rfl
  rw [moves, List.filterMap_cons_none rfl, List.filterMap_append, hpivots,
    List.filterMap_cons_none (Move.replaced?_closing _ _)]
  rfl

theorem replaced?_conclusion (p : Problem α) :
    (leg.conclusion p).filterMap Move.replaced? = [] := by
  rw [conclusion]
  cases leg.stage.ending <;> rfl

end Leg

namespace SimplexSettings

variable {s : SimplexSettings α} {p : Problem α}

theorem replaced?_phaseTwoMoves (t : Tableau α) (used : ℕ) :
    (s.phaseTwoMoves p t used).filterMap Move.replaced? = [] := by
  rw [phaseTwoMoves, List.filterMap_append, Leg.replaced?_moves, Leg.replaced?_conclusion]
  rfl

theorem replaced?_phaseOneRemarks (used : ℕ) :
    (s.phaseOneRemarks p used).filterMap Move.replaced? = [] := by
  refine List.filterMap_eq_nil_iff.mpr fun move h => ?_
  obtain ⟨w, rfl⟩ | ⟨reason, rfl⟩ := of_mem_phaseOneRemarks h <;> rfl

theorem replaced?_bothPhasesMoves {used : ℕ} (h : s.bothPhasesFrom? p = some used) :
    (s.bothPhasesMoves p used).filterMap Move.replaced? =
      (s.driveOuts p).filterMap DriveOut.replaced? := by
  rw [bothPhasesMoves, List.filterMap_cons_none rfl, List.filterMap_append, Leg.replaced?_moves,
    List.filterMap_append, replaced?_phaseOneRemarks, List.nil_append, List.nil_append,
    afterPhaseOne, driveOuts, h]
  cases hstatus : s.phaseOneStatus p used with
  | some status => simp [hstatus]
  | none =>
    simp only [hstatus]
    rw [List.filterMap_append, List.filterMap_map, List.filterMap_cons_none rfl,
      replaced?_phaseTwoMoves, List.append_nil]
    rfl

theorem afterPenalty_of_isRechecked_eq_false (h : s.isRechecked p = false) :
    s.afterPenalty p = (s.penaltyLeg p).conclusion p := by
  by_cases hend : (s.penaltyLeg p).stage.ending = .outOfPivots
  · rw [afterPenalty, Leg.conclusion, hend]
  · refine afterPenalty_of_none (Option.not_isSome_iff_eq_none.mp fun hsome => ?_)
    rw [(s.isRechecked_iff p).mpr ⟨hend, hsome⟩] at h
    cases h

/-- A solve tells of the artificials that it replaces. -/
theorem replaced?_moves : (s.moves p).filterMap Move.replaced? =
    (s.driveOuts p).filterMap DriveOut.replaced? := by
  rw [moves]
  cases hd : s.discipline with
  | bigM =>
    simp only
    rw [List.filterMap_append, Leg.replaced?_moves, List.nil_append]
    cases hre : s.isRechecked p with
    | false =>
      have hfrom : s.bothPhasesFrom? p = none := by simp [bothPhasesFrom?, hd, hre]
      rw [afterPenalty_of_isRechecked_eq_false hre, Leg.replaced?_conclusion, driveOuts, hfrom]
      rfl
    | true =>
      obtain ⟨hend, hsome⟩ := (s.isRechecked_iff p).mp hre
      obtain ⟨row, hrow⟩ := Option.isSome_iff_exists.mp hsome
      rw [afterPenalty_of_some hend hrow, List.filterMap_cons_none rfl]
      exact replaced?_bothPhasesMoves (by simp [bothPhasesFrom?, hd, hre])
  | twoPhase =>
    simp only
    split
    · next hcount => exact replaced?_bothPhasesMoves (by simp [bothPhasesFrom?, hd, hcount])
    · next hcount =>
      have hfrom : s.bothPhasesFrom? p = none := by simp [bothPhasesFrom?, hd, hcount]
      rw [replaced?_phaseTwoMoves, driveOuts, hfrom]
      rfl

/-- The one pass over the rows replaces at most one artificial for each constraint. -/
theorem length_driveOuts_le : (s.driveOuts p).length ≤ p.constraintCount := by
  rw [driveOuts]
  cases s.bothPhasesFrom? p with
  | none => exact Nat.zero_le _
  | some used =>
    cases hstatus : s.phaseOneStatus p used with
    | some status => simp [hstatus]
    | none =>
      have hpass : (s.driveOutPass p used).length ≤ p.constraintCount := by
        refine (Tableau.length_driveOut_le _ _ _).trans_eq ?_
        rw [List.length_range, Leg.length_rows_final]
        exact p.length_rows_standardForm
      simpa [hstatus] using hpass

/-- Every step of a solve that pivots adds to the count, unless it replaces an artificial. -/
theorem keeps_counts (s : SimplexSettings α) (p : Problem α) :
    s.Keeps p fun _ r => r.trace.Counts r.tableaus r.iterations where
  note he hr := hr.note he.isSilent.2.2.2
  write _ hr := hr
  start _ _ hr := hr.keep (l := [.initialTableau _]) rfl rfl rfl
  pivot {r phase leg d} _ hd hr := by
    have hratios := (Goal.isStep_of_mem_run d hd).isEmpty_ratios
    simp only [Record.addPivot, Record.choose, Record.note, List.append_assoc]
    refine hr.keep rfl ?_ ?_
    · simp [Snapshot.isIteration, Snapshot.hasPivot, Record.pivotSnapshot, hratios]
    · simp [Snapshot.hasPivot, Record.pivotSnapshot, hratios, Event.replaced?]
  close {r phase leg} _ hr := by
    rw [Record.close]
    cases leg.stage.ending with
    | optimal => exact hr.note rfl
    | outOfPivots => exact hr.note rfl
    | unbounded column ratios => exact ((hr.note rfl).note rfl).note rfl
  driveOut {r d} _ hr := by
    rw [Record.addDriveOut]
    cases d.column with
    | none => exact hr.note rfl
    | some col => exact hr.keep (l := [.artificialDrivenOut _ _ (some _)]) rfl rfl rfl

/-- A solve counts the pivots of its pivot loops and keeps them under the cap. The pivots that
replace artificials are not among them; there are as many as the trace tells of, and no more than
constraints. -/
theorem solve_counts (hv : p.validate = .ok ()) : ∃ solution, s.solve p = .ok solution ∧
    solution.trace.Counts solution.tableaus solution.iterations ∧
    solution.iterations ≤ s.limit p ∧
    (solution.trace.filterMap Event.replaced?).length ≤ p.constraintCount := by
  have hopening : (s.opening p).trace.filterMap Event.replaced? = [] :=
    List.filterMap_eq_nil_iff.mpr fun e he => (isSilent_of_mem_opening he).2.2.2
  have hstory := s.story_run p
  refine ⟨_, solve_of_validate hv, ?_, ?_, ?_⟩
  · have hnone : (s.opening p).trace.Counts (s.opening p).tableaus (s.opening p).iterations :=
      ⟨rfl, fun i a ha => by simp [opening] at ha, by rw [hopening]; rfl⟩
    obtain ⟨r, hr, hread⟩ := (keeps_counts s p).run hnone
    rw [hread.trace_eq, hread.tableaus_eq, hread.iterations_eq]
    exact hr
  · have hcap : s.limit p ≤ (s.withCap s.maxIterations).limit p := le_rfl
    have hle := (truncates_moves hcap).iterations_le (s.opening p).story
    rw [← hstory] at hle
    exact hle.trans_eq (Nat.zero_add _)
  · have hreplaced : (s.run p).solution.trace.filterMap Event.replaced? =
        (s.driveOuts p).filterMap DriveOut.replaced? := by
      have htrace := congrArg Story.trace hstory
      change (s.run p).solution.trace = _ at htrace
      rw [htrace, Story.filterMap_replaced?_foldl_make, replaced?_moves]
      change (s.opening p).trace.filterMap Event.replaced? ++ _ = _
      rw [hopening, List.nil_append]
    rw [hreplaced]
    exact (List.length_filterMap_le _ _).trans length_driveOuts_le

/-- One pivot of the first phase is counted, the one that replaces the other artificial is not. -/
theorem solve_counts_crossingProblem : crossingProblem.validate = .ok () ∧
    ∃ solution, (⟨some 1, 0, .twoPhase, 1⟩ : SimplexSettings ℚ).solve crossingProblem =
        .ok solution ∧ solution.trace.Counts solution.tableaus solution.iterations ∧
      solution.iterations = 1 ∧ solution.trace.filterMap Event.replaced? = [(1, "a2", "x2")] := by
  have hv : crossingProblem.validate = .ok () := by decide +kernel
  obtain ⟨solution, hsolve, hcounts, -⟩ := solve_counts (s := ⟨some 1, 0, .twoPhase, 1⟩) hv
  obtain ⟨-, rfl⟩ := validate_of_solve hsolve
  exact ⟨hv, _, hsolve, hcounts, by decide +kernel, by decide +kernel⟩

/-- Two pivots are performed and shown, also under a cap of one, and one of them is counted. -/
theorem pivots_ne_iterations : crossingProblem.validate = .ok () ∧ ∀ cap ∈ [none, some 1],
    let solution := ((⟨cap, Scalar.defaultTolerance, .twoPhase, defaultBigM⟩ :
      SimplexSettings ℚ).run crossingProblem).solution
    solution.status = .optimal ∧ solution.tableaus.countP Snapshot.hasPivot = 2 ∧
      solution.iterations = 1 ∧
      (solution.tableaus.filter Snapshot.hasPivot).map (·.iteration) = [1, 1] := by
  decide +kernel

end SimplexSettings

end LinearProgram
