import LinearProgram.Proofs.DriveOut
import LinearProgram.Proofs.Recording

/-! # Invariants of a record

A solve goes from tableau to tableau: it starts stages, pivots, drives out artificials, closes
stages, and adds to its record on the way. What each of these steps keeps, given the tableau at
which the solve stands, holds of the record that the answer is read off.
-/

namespace LinearProgram

variable {α : Type}

/-- Events that belong to no stage. -/
def Event.IsRemark : Event α → Prop
  | .phaseStarted _ | .phaseCompleted .. | .infeasible _ | .penaltyRecheck .. | .solution .. => True
  | _ => False

/-- The answer shows what this record holds. -/
structure SimplexRun.IsReadOff (run : SimplexRun α) (r : Record α) : Prop where
  trace_eq : run.solution.trace = r.trace
  tableaus_eq : run.solution.tableaus = r.tableaus
  iterations_eq : run.solution.iterations = r.iterations

def Event.IsPivot : Event α → Prop
  | .pivot .. => True
  | _ => False

variable [Scalar α]

/-- The snapshot is one of this tableau. -/
structure Snapshot.Shows (snapshot : Snapshot α) (t : Tableau α) : Prop where
  columns_eq : snapshot.columns = t.columnNames
  grid_eq : snapshot.grid = t.grid.map (·.map Scalar.unsignedZero)
  basic_eq : snapshot.basicVariables = t.basicVariables

/-- What a trace tells of a pivot. -/
def Record.pivotEvent (iteration index : Nat) (d : Pivot α) : Event α :=
  .pivot iteration d.row d.column d.element d.entering d.leaving d.before.objectiveValue
    d.after.objectiveValue index

theorem Tableau.shows_snapshot (t : Tableau α) (phase : Option Nat) (iteration : Nat)
    (description : String) : (t.snapshot phase iteration description).Shows t :=
  ⟨rfl, rfl, rfl⟩

theorem Snapshot.Shows.view_eq {snapshot : Snapshot α} {t : Tableau α} (h : snapshot.Shows t) :
    snapshot.view = Frame.view ⟨snapshot.phase, t⟩ := by
  rw [view, Frame.view, h.grid_eq]

/-- The last snapshot of a record shows the tableau at which the solve stands. -/
def Record.ShowsLast (t : Option (Tableau α)) (r : Record α) : Prop :=
  ∀ u, t = some u → ∃ a, r.tableaus.getLast? = some a ∧ a.Shows u

theorem Record.showsLast_of_append {r : Record α} {l : List (Snapshot α)} {b : Snapshot α}
    {u : Tableau α} (h : r.tableaus = l ++ [b]) (hb : b.Shows u) : r.ShowsLast (some u) := by
  rintro _ ⟨⟩
  exact ⟨b, by rw [h, List.getLast?_concat], hb⟩

/-- Each snapshot with an entering column is related to the one before it. -/
def Snapshot.Follows (R : Snapshot α → Snapshot α → Prop) (tableaus : List (Snapshot α)) : Prop :=
  ∀ i b, tableaus[i]? = some b → b.enteringColumn ≠ none →
    ∃ k a, i = k + 1 ∧ tableaus[k]? = some a ∧ R a b

omit [Scalar α] in
theorem Snapshot.Follows.append {R : Snapshot α → Snapshot α → Prop} {l : List (Snapshot α)}
    (h : Follows R l) {b : Snapshot α}
    (hb : b.enteringColumn ≠ none → ∃ a, l.getLast? = some a ∧ R a b) : Follows R (l ++ [b]) := by
  intro i b' hb' hne
  rcases Nat.lt_or_ge i l.length with hi | hi
  · rw [List.getElem?_append_left hi] at hb'
    obtain ⟨k, a, rfl, ha, hR⟩ := h i b' hb' hne
    exact ⟨k, a, rfl, by rw [List.getElem?_append_left (by omega), ha], hR⟩
  · rw [List.getElem?_append_right hi] at hb'
    obtain ⟨hzero, rfl⟩ : i - l.length = 0 ∧ b = b' := by
      cases hk : i - l.length with
      | zero => simpa [hk] using hb'
      | succ k => simp [hk] at hb'
    obtain ⟨a, ha, hR⟩ := hb hne
    rw [List.getLast?_eq_getElem?] at ha
    have hlt : l.length - 1 < l.length := (List.getElem?_eq_some_iff.mp ha).1
    exact ⟨l.length - 1, a, by omega, by rw [List.getElem?_append_left hlt, ha], hR⟩

namespace SimplexSettings

variable {s : SimplexSettings α} {p : Problem α} {inv : Option (Tableau α) → Record α → Prop}

/-- The stages that a solve runs, each with the phase under which it is recorded. -/
inductive IsLeg (s : SimplexSettings α) (p : Problem α) : Option Nat → Leg α → Prop where
  | penalty : s.discipline = .bigM → IsLeg s p none (s.penaltyLeg p)
  | first {used : Nat} : s.bothPhasesFrom? p = some used →
      IsLeg s p (some 1) (s.phaseOneLeg p used)
  | second {used : Nat} : s.bothPhasesFrom? p = some used → s.phaseOneStatus p used = none →
      IsLeg s p (some 2) (s.secondLeg p used)
  | direct : s.discipline = .twoPhase → s.bothPhasesFrom? p = none →
      IsLeg s p (some 2) (s.phaseTwoLeg p p.standardForm 0)

theorem IsLeg.tolerance_eq {phase : Option Nat} {leg : Leg α} (h : s.IsLeg p phase leg) :
    leg.goal.tolerance = s.tolerance := by
  cases h <;> rfl

theorem IsLeg.length_costs {phase : Option Nat} {leg : Leg α} (h : s.IsLeg p phase leg) :
    leg.costs.length = leg.loaded.columnCount := by
  cases h <;> exact (List.length_map _).trans List.length_zipIdx

/-- Every step of a solve keeps the invariant, a property of the record and of the tableau at which
the solve stands, if it has reached one. -/
structure Keeps (s : SimplexSettings α) (p : Problem α)
    (inv : Option (Tableau α) → Record α → Prop) : Prop where
  note : ∀ {t r} {e : Event α}, e.IsRemark → inv t r → inv t (r.note e)
  write : ∀ {t r} (entry : Log.Entry α), inv t r → inv t (r.write entry)
  start : ∀ {t r phase leg} (description : String), s.IsLeg p phase leg → inv t r →
    inv (some leg.start) (r.openStage phase description leg.start)
  pivot : ∀ {r phase leg d}, s.IsLeg p phase leg → d ∈ leg.stage.pivots →
    inv (some d.before) r → inv (some d.after) (r.addPivot phase d)
  close : ∀ {r phase leg}, s.IsLeg p phase leg → inv (some leg.stage.final) r →
    inv (some leg.stage.final) (r.close (s.limit p) leg.stage)
  driveOut : ∀ {r d}, d ∈ s.driveOuts p → inv (some d.before) r →
    inv (some d.after) (r.addDriveOut d)

namespace Keeps

variable (h : s.Keeps p inv)

include h

theorem foldl_addPivot {phase : Option Nat} {leg : Leg α} (hleg : s.IsLeg p phase leg)
    {goal : Goal α} {budget : Nat} {t : Tableau α} {r : Record α}
    (hmem : ∀ d ∈ (goal.run budget t).pivots, d ∈ leg.stage.pivots) (hr : inv (some t) r) :
    inv (some (goal.run budget t).final)
      ((goal.run budget t).pivots.foldl (Record.addPivot phase) r) := by
  refine Goal.run_induction (motive := fun _ t stage => ∀ r, inv (some t) r →
    (∀ d ∈ stage.pivots, d ∈ leg.stage.pivots) →
      inv (some stage.final) (stage.pivots.foldl (Record.addPivot phase) r))
    ?_ ?_ ?_ ?_ budget t r hr hmem
  · exact fun _ _ _ _ hr _ => hr
  · exact fun _ _ _ _ hr _ => hr
  · exact fun _ _ _ _ _ _ hr _ => hr
  · intro _ d _ ih r hr hmem
    obtain ⟨hd, hrest⟩ := List.forall_mem_cons.mp hmem
    exact ih _ (h.pivot hleg hd hr) hrest

theorem stage {phase : Option Nat} {leg : Leg α} (hleg : s.IsLeg p phase leg)
    (description : String) {t : Option (Tableau α)} {r : Record α} (hr : inv t r) :
    inv (some leg.stage.final)
      ((r.openStage phase description leg.start).addStage phase (s.limit p) leg.stage) :=
  h.close hleg (h.foldl_addPivot hleg (fun _ hd => hd) (h.start description hleg hr))

theorem foldl_addDriveOut {t : Tableau α} {rows : List Nat} {r : Record α}
    (hmem : ∀ d ∈ t.driveOut s.tolerance rows, d ∈ s.driveOuts p) (hr : inv (some t) r) :
    inv (some (DriveOut.final t (t.driveOut s.tolerance rows)))
      ((t.driveOut s.tolerance rows).foldl Record.addDriveOut r) := by
  refine Tableau.driveOut_induction s.tolerance (motive := fun t _ pass => ∀ r, inv (some t) r →
    (∀ d ∈ pass, d ∈ s.driveOuts p) →
      inv (some (DriveOut.final t pass)) (pass.foldl Record.addDriveOut r))
    ?_ ?_ ?_ ?_ t rows r hr hmem
  · exact fun _ _ hr _ => hr
  · exact fun _ _ _ _ _ ih => ih
  · intro _ _ _ _ _ _ _ _ ih r hr hmem
    obtain ⟨hd, hrest⟩ := List.forall_mem_cons.mp hmem
    rw [DriveOut.final_cons]
    exact ih _ (h.driveOut hd hr) hrest
  · intro _ _ _ _ _ _ _ _ _ ih r hr hmem
    obtain ⟨hd, hrest⟩ := List.forall_mem_cons.mp hmem
    rw [DriveOut.final_cons]
    exact ih _ (h.driveOut hd hr) hrest

variable {t : Option (Tableau α)} {r : Record α}

/-- The first phase stands at its last tableau, or at the basis that it hands over. -/
theorem phaseOne (hused : s.bothPhasesFrom? p = some r.iterations) (hr : inv t r) :
    inv (some (match s.phaseOneStatus p r.iterations with
      | some _ => (s.phaseOneLeg p r.iterations).stage.final
      | none => s.feasibleBasis p r.iterations)) (s.phaseOne p r).record := by
  have hstage := h.stage (.first hused) "Initial tableau, phase 1 (minimize W)"
    (h.note (e := .phaseStarted 1) trivial hr)
  simp only [SimplexSettings.phaseOne]
  cases hend : (s.phaseOneLeg p r.iterations).stage.ending with
  | unbounded column ratios =>
    simp only [phaseOneStatus, hend]
    exact hstage
  | outOfPivots =>
    simp only [phaseOneStatus, hend]
    exact hstage
  | optimal =>
    have hcompleted := h.note (e := .phaseCompleted 1
      (s.phaseOneLeg p r.iterations).stage.final.objectiveValue) trivial hstage
    cases hpart : (s.phaseOneLeg p r.iterations).stage.final.hasArtificialPart s.tolerance with
    | true =>
      simp only [phaseOneStatus, hend, hpart, if_true]
      exact h.note trivial (h.write _ hcompleted)
    | false =>
      have hstatus : s.phaseOneStatus p r.iterations = none := by
        simp [phaseOneStatus, hend, hpart]
      simp only [hstatus, Bool.false_eq_true, if_false]
      refine h.foldl_addDriveOut (fun d hd => ?_) hcompleted
      exact mem_driveOuts_iff.mpr ⟨_, hused, hstatus, hd⟩

theorem phaseTwo {u : Tableau α} (hleg : s.IsLeg p (some 2) (s.phaseTwoLeg p u r.iterations))
    (hr : inv t r) : ∃ r', inv (some (s.phaseTwoLeg p u r.iterations).stage.final) r' ∧
      (s.phaseTwo p u r).IsReadOff r' := by
  have hstage := h.stage hleg "Initial tableau, phase 2" hr
  simp only [SimplexSettings.phaseTwo]
  cases (s.phaseTwoLeg p u r.iterations).stage.ending with
  | optimal => exact ⟨_, h.note (e := .solution ..) trivial hstage, rfl, rfl, rfl⟩
  | unbounded column ratios => exact ⟨_, hstage, rfl, rfl, rfl⟩
  | outOfPivots => exact ⟨_, hstage, rfl, rfl, rfl⟩

theorem bothPhases (hused : s.bothPhasesFrom? p = some r.iterations) (hr : inv t r) :
    ∃ r', inv (some (s.lastLeg p).stage.final) r' ∧ (s.bothPhases p r).IsReadOff r' := by
  have hfirst := h.phaseOne hused hr
  obtain ⟨r', hr', heq⟩ := phaseOne_eq s p r
  rw [SimplexSettings.bothPhases]
  cases hstatus : s.phaseOneStatus p r.iterations with
  | some status =>
    simp only [heq, hstatus, PhaseOne.record] at hfirst ⊢
    rw [lastLeg_of_stopped hused hstatus]
    exact ⟨_, hfirst, rfl, rfl, rfl⟩
  | none =>
    simp only [heq, hstatus, PhaseOne.record] at hfirst ⊢
    have hleg : s.phaseTwoLeg p (s.feasibleBasis p r.iterations)
        (r'.note (.phaseStarted 2)).iterations = s.secondLeg p r.iterations := by
      rw [Record.iterations_note, hr', secondLeg]
    have hsecond := h.phaseTwo (by rw [hleg]; exact .second hused hstatus)
      (h.note (e := .phaseStarted 2) trivial hfirst)
    rwa [hleg, ← lastLeg_of_feasible hused hstatus] at hsecond

theorem penalized (hd : s.discipline = .bigM) (hr0 : r.iterations = 0) (hr : inv t r) :
    ∃ r', inv (some (s.lastLeg p).stage.final) r' ∧ (s.penalized p r).IsReadOff r' := by
  have hstage := h.stage (.penalty hd) "Initial tableau" (h.write
    (Log.debug "artificial penalty" [("big_m", .number (s.penalty p))]) hr)
  have hlast (hre : ¬ s.isRechecked p = true) : s.lastLeg p = s.penaltyLeg p := by
    rw [lastLeg_of_direct (by simp [bothPhasesFrom?, hd, hre]), directLeg, hd]
  simp only [SimplexSettings.penalized]
  split
  · next hout =>
    rw [hlast fun hre => ((s.isRechecked_iff p).mp hre).1 hout]
    exact ⟨_, hstage, rfl, rfl, rfl⟩
  · next row hrow hne =>
    refine h.bothPhases ?_ (h.write _ (h.note trivial hstage))
    have hre : s.isRechecked p = true := (s.isRechecked_iff p).mpr ⟨hne, by rw [hrow]; rfl⟩
    simp [bothPhasesFrom?, hd, hre, hr0]
  · next hnone =>
    rw [hlast fun hre => by simpa [hnone] using ((s.isRechecked_iff p).mp hre).2]
    exact ⟨_, hstage, rfl, rfl, rfl⟩
  · next hnone =>
    rw [hlast fun hre => by simpa [hnone] using ((s.isRechecked_iff p).mp hre).2]
    exact ⟨_, h.note (e := .solution ..) trivial hstage, rfl, rfl, rfl⟩

/-- What every step of a solve keeps holds of the record behind the answer and of the tableau at
which the solve ends. -/
theorem run (h0 : inv none (s.opening p)) :
    ∃ r, inv (some (s.lastLeg p).stage.final) r ∧ (s.run p).IsReadOff r := by
  rw [SimplexSettings.run]
  cases hd : s.discipline with
  | bigM => exact h.penalized hd rfl h0
  | twoPhase =>
    simp only
    split
    · next hcount => exact h.bothPhases (by simp [bothPhasesFrom?, hd, hcount, opening]) h0
    · next hcount =>
      have hfrom : s.bothPhasesFrom? p = none := by simp [bothPhasesFrom?, hd, hcount]
      rw [lastLeg_of_direct hfrom, directLeg, hd]
      exact h.phaseTwo (.direct hd hfrom) h0

end Keeps

theorem isStep_of_mem_driveOuts {d : DriveOut α} (hd : d ∈ s.driveOuts p) :
    d.IsStep s.tolerance := by
  obtain ⟨used, -, -, hpass⟩ := mem_driveOuts_iff.mp hd
  exact Tableau.isStep_of_mem_driveOut d hpass

/-- Snapshots are taken of the tableaus that stages start from and pivot to, and of those in which
an artificial is replaced. -/
theorem forall_tableaus {P : Snapshot α → Prop}
    (hstart : ∀ {phase leg} iteration description, s.IsLeg p phase leg →
      P (leg.start.snapshot phase iteration description))
    (hpivot : ∀ {phase leg d} iteration, s.IsLeg p phase leg → d ∈ leg.stage.pivots →
      P (Record.pivotSnapshot phase iteration d))
    (hdriveOut : ∀ {d col} iteration, d ∈ s.driveOuts p → d.column = some col →
      P (d.snapshot iteration col)) :
    ∀ snapshot ∈ (s.run p).solution.tableaus, P snapshot := by
  have hadd : ∀ {l : List (Snapshot α)} {a : Snapshot α}, (∀ snapshot ∈ l, P snapshot) → P a →
      ∀ snapshot ∈ l ++ [a], P snapshot := fun hl ha =>
    List.forall_mem_append.mpr ⟨hl, List.forall_mem_singleton.mpr ha⟩
  have hkeeps : s.Keeps p fun _ r => ∀ snapshot ∈ r.tableaus, P snapshot := by
    refine ⟨fun _ hr => hr, fun _ hr => hr, fun _ hleg hr => hadd hr (hstart _ _ hleg),
      fun hleg hd hr => hadd hr (hpivot _ hleg hd), fun {r _ leg} _ hr => ?_, fun {r d} hd hr => ?_⟩
    · rw [Record.close]
      cases leg.stage.ending <;> exact hr
    · rw [Record.addDriveOut]
      cases hcol : d.column with
      | none => exact hr
      | some col => exact hadd hr (hdriveOut _ hd hcol)
  obtain ⟨r, hr, hread⟩ := hkeeps.run (by simp [opening])
  rw [hread.tableaus_eq]
  exact hr

/-- The last snapshot keeps up with the solve. -/
theorem keeps_showsLast (s : SimplexSettings α) (p : Problem α) :
    s.Keeps p fun t r => r.ShowsLast t where
  note _ hr := hr
  write _ hr := hr
  start _ _ _ := Record.showsLast_of_append rfl (Tableau.shows_snapshot ..)
  pivot _ _ _ := Record.showsLast_of_append rfl ⟨rfl, rfl, rfl⟩
  close {r phase leg} _ hr := by
    rw [Record.close]
    cases leg.stage.ending <;> exact hr
  driveOut {r d} hd hr := by
    have hafter := (isStep_of_mem_driveOuts hd).after_eq
    rw [Record.addDriveOut]
    cases hcol : d.column with
    | none =>
      rw [hcol] at hafter
      rw [hafter]
      exact hr
    | some col => exact Record.showsLast_of_append rfl ⟨rfl, rfl, rfl⟩

/-- A snapshot behind a pivot follows the snapshot of the tableau before it. -/
theorem follows_tableaus {R : Snapshot α → Snapshot α → Prop}
    (hpivot : ∀ {phase leg d a} iteration, s.IsLeg p phase leg → d ∈ leg.stage.pivots →
      a.Shows d.before → R a (Record.pivotSnapshot phase iteration d))
    (hdriveOut : ∀ {d col a} iteration, d ∈ s.driveOuts p → d.column = some col →
      a.Shows d.before → R a (d.snapshot iteration col)) :
    Snapshot.Follows R (s.run p).solution.tableaus := by
  have hshows := keeps_showsLast s p
  have hkeeps : s.Keeps p fun t r => r.ShowsLast t ∧ Snapshot.Follows R r.tableaus := by
    refine ⟨fun _ hr => hr, fun _ hr => hr, fun description hleg hr => ?_,
      fun {r phase leg d} hleg hd hr => ?_, fun {r phase leg} hleg hr => ?_,
      fun {r d} hd hr => ?_⟩
    · exact ⟨hshows.start description hleg hr.1, hr.2.append fun hne => absurd rfl hne⟩
    · obtain ⟨a, ha, hbefore⟩ := hr.1 _ rfl
      exact ⟨hshows.pivot hleg hd hr.1, hr.2.append fun _ => ⟨a, ha, hpivot _ hleg hd hbefore⟩⟩
    · refine ⟨hshows.close hleg hr.1, ?_⟩
      rw [Record.close]
      cases leg.stage.ending <;> exact hr.2
    · refine ⟨hshows.driveOut hd hr.1, ?_⟩
      rw [Record.addDriveOut]
      cases hcol : d.column with
      | none => exact hr.2
      | some col =>
        obtain ⟨a, ha, hbefore⟩ := hr.1 _ rfl
        exact hr.2.append fun _ => ⟨a, ha, hdriveOut _ hd hcol hbefore⟩
  obtain ⟨r, hr, hread⟩ := hkeeps.run ⟨by rintro _ ⟨⟩, fun i b hb => by simp [opening] at hb⟩
  rw [hread.tableaus_eq]
  exact hr.2

/-- The event tells of a pivot of a stage, and the snapshot after this pivot is where it says. -/
def TellsOf (s : SimplexSettings α) (p : Problem α) (tableaus : List (Snapshot α))
    (e : Event α) : Prop :=
  ∃ phase leg d iteration index, s.IsLeg p phase leg ∧ d ∈ leg.stage.pivots ∧
    e = Record.pivotEvent iteration index d ∧
    tableaus[index]? = some (Record.pivotSnapshot phase iteration d)

/-- Every pivot in the trace of a record is one of a stage. -/
def Tells (s : SimplexSettings α) (p : Problem α) (r : Record α) : Prop :=
  ∀ e ∈ r.trace, e.IsPivot → s.TellsOf p r.tableaus e

namespace Tells

variable {r : Record α} (h : s.Tells p r)

include h

theorem note {e : Event α} (he : e.IsPivot → s.TellsOf p r.tableaus e) :
    s.Tells p (r.note e) :=
  List.forall_mem_append.mpr ⟨h, List.forall_mem_singleton.mpr he⟩

theorem keep (snapshot : Snapshot α) : s.Tells p (r.keep snapshot) := by
  intro e he hp
  obtain ⟨phase, leg, d, iteration, index, hleg, hd, heq, hget⟩ := h e he hp
  refine ⟨phase, leg, d, iteration, index, hleg, hd, heq, ?_⟩
  rw [Record.keep, List.getElem?_append_left (List.getElem?_eq_some_iff.mp hget).1, hget]

theorem choose (before : Tableau α) (column : Nat) (ratios : List (Option α)) (row : Option Nat)
    (leaving : Option String) : s.Tells p (r.choose before column ratios row leaving) :=
  (h.note False.elim).note False.elim

end Tells

theorem tells_opening : s.Tells p (s.opening p) := by
  intro e he hp
  simp only [opening, Problem.normalizations, List.mem_append, List.mem_cons, List.not_mem_nil,
    or_false, List.mem_filterMap] at he
  obtain ((rfl | rfl) | ⟨c, -, hc⟩) | rfl := he
  · exact hp.elim
  · exact hp.elim
  · split at hc
    · obtain rfl := Option.some.inj hc
      exact hp.elim
    · cases hc
  · exact hp.elim

/-- A pivot that the trace tells of is one of a stage, and its snapshot is where the trace says. -/
theorem tellsOf_of_mem {e : Event α} (he : e ∈ (s.run p).solution.trace) (hp : e.IsPivot) :
    s.TellsOf p (s.run p).solution.tableaus e := by
  have hkeeps : s.Keeps p fun _ r => s.Tells p r := by
    refine ⟨fun {t r e} he hr => hr.note fun hp => ?_, fun _ hr => hr,
      fun _ _ hr => (hr.keep _).note False.elim, fun {r phase leg d} hleg hd hr => ?_,
      fun {r phase leg} _ hr => ?_, fun {r d} hd hr => ?_⟩
    · cases e <;> first | exact he.elim | exact hp.elim
    · have hkept := (hr.choose d.before d.column d.ratios (some d.row) (some d.leaving)).keep
        (Record.pivotSnapshot phase (r.iterations + 1) d)
      exact hkept.note fun _ => ⟨phase, leg, d, _, r.tableaus.length, hleg, hd, rfl,
        List.getElem?_concat_length⟩
    · rw [Record.close]
      cases leg.stage.ending with
      | optimal => exact hr.note False.elim
      | outOfPivots => exact hr.note False.elim
      | unbounded column ratios => exact (hr.choose _ _ _ _ _).note False.elim
    · rw [Record.addDriveOut]
      cases d.column with
      | none => exact hr.note False.elim
      | some col => exact (hr.keep _).note False.elim
  obtain ⟨r, hr, hread⟩ := hkeeps.run tells_opening
  rw [hread.tableaus_eq]
  rw [hread.trace_eq] at he
  exact hr e he hp

end SimplexSettings

end LinearProgram
