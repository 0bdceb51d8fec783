import LinearProgram.Proofs.ZeroTolerance

/-! # What a trace ends with

The last event of a trace reports the status of the solve, with one exception. A first phase may
stop at a column whose entries add up to more than the tolerance although none of them exceeds it;
the trace then ends with a missing bound, and the status is infeasible. Without a tolerance this
does not happen.
-/

namespace LinearProgram

variable {α : Type}

/-- The status that an event reports, if it reports one. -/
def Event.verdict? : Event α → Option Status
  | .solution .. => some .optimal
  | .infeasible _ => some .infeasible
  | .unbounded _ => some .unbounded
  | .iterationLimit _ => some .iterationLimit
  | _ => none

/-- The status that the last event reports. -/
def Trace.verdict? (trace : Trace α) : Option Status := trace.getLast?.bind Event.verdict?

/-- Whether a stage stops at a column that improves its objective and that no row bounds. -/
def Ending.isUnbounded : Ending α → Bool
  | .unbounded .. => true
  | .optimal | .outOfPivots => false

/-- The trace ends with the status; if a first phase has stopped without a bound, the status is
infeasible and the trace ends with the missing bound. -/
def SimplexRun.Concludes (run : SimplexRun α) (escaped : Bool) : Prop :=
  if escaped then run.solution.status = .infeasible ∧
    Trace.verdict? run.solution.trace = some .unbounded
  else Trace.verdict? run.solution.trace = some run.solution.status

@[simp] theorem Record.verdict?_note (r : Record α) (e : Event α) :
    Trace.verdict? (r.note e).trace = e.verdict? := by
  simp [Trace.verdict?, note]

variable [Scalar α]

@[simp] theorem Record.verdict?_addStage (phase : Option Nat) (limit : Nat) (stage : Stage α)
    (r : Record α) : Trace.verdict? (r.addStage phase limit stage).trace =
      match stage.ending with
      | .optimal => none
      | .unbounded .. => some .unbounded
      | .outOfPivots => some .iterationLimit := by
  unfold addStage close
  split <;> rename_i h <;> rw [verdict?_note, h] <;> rfl

theorem Record.verdict?_finish (tolerance : α) (p : Problem α) (t : Tableau α) (r : Record α) :
    Trace.verdict? (r.finish tolerance p t).solution.trace = some .optimal := by
  simp [Trace.verdict?, finish, Event.verdict?]

namespace SimplexSettings

variable (s : SimplexSettings α) (p : Problem α) (r : Record α)

/-- Whether the first phase of a solve stops without a bound. -/
def escapesPhaseOne (s : SimplexSettings α) (p : Problem α) : Bool :=
  match s.bothPhasesFrom? p with
  | some used => (s.phaseOneLeg p used).stage.ending.isUnbounded
  | none => false

theorem concludes_phaseTwo (t : Tableau α) : (s.phaseTwo p t r).Concludes false := by
  simp only [SimplexRun.Concludes, Bool.false_eq_true, if_false]
  unfold phaseTwo
  cases h : (s.phaseTwoLeg p t r.iterations).stage.ending with
  | optimal => simp only [h, Record.verdict?_finish]; rfl
  | unbounded column ratios => simp only [Record.stop, Record.verdict?_addStage, h]
  | outOfPivots => simp only [Record.stop, Record.verdict?_addStage, h]

theorem concludes_of_stopped {status : Status} {r' : Record α}
    (h : s.phaseOne p r = .stopped status r') : (r'.stop status).Concludes
      (s.phaseOneLeg p r.iterations).stage.ending.isUnbounded := by
  unfold phaseOne at h
  cases hend : (s.phaseOneLeg p r.iterations).stage.ending with
  | unbounded column ratios =>
    simp only [hend] at h
    obtain ⟨rfl, rfl⟩ := PhaseOne.stopped.inj h
    exact ⟨rfl, by simp [Record.stop, hend]⟩
  | outOfPivots =>
    simp only [hend] at h
    obtain ⟨rfl, rfl⟩ := PhaseOne.stopped.inj h
    simp [SimplexRun.Concludes, Ending.isUnbounded, Record.stop, hend]
  | optimal =>
    simp only [hend] at h
    split at h
    · obtain ⟨rfl, rfl⟩ := PhaseOne.stopped.inj h
      simp [SimplexRun.Concludes, Ending.isUnbounded, Record.stop, Event.verdict?]
    · cases h

theorem isUnbounded_of_feasible {t : Tableau α} {r' : Record α}
    (h : s.phaseOne p r = .feasible t r') :
    (s.phaseOneLeg p r.iterations).stage.ending.isUnbounded = false := by
  unfold phaseOne at h
  cases hend : (s.phaseOneLeg p r.iterations).stage.ending with
  | unbounded column ratios =>
    simp only [hend] at h
    cases h
  | outOfPivots => rfl
  | optimal => rfl

theorem concludes_bothPhases {used : ℕ} (hused : r.iterations = used) :
    (s.bothPhases p r).Concludes (s.phaseOneLeg p used).stage.ending.isUnbounded := by
  subst hused
  unfold bothPhases
  cases h : s.phaseOne p r with
  | stopped status r' => exact concludes_of_stopped s p r h
  | feasible t r' =>
    rw [isUnbounded_of_feasible s p r h]
    exact concludes_phaseTwo s p _ t

theorem concludes_penalized (hr : r.iterations = 0) : (s.penalized p r).Concludes
    (s.isRechecked p &&
      (s.phaseOneLeg p (s.penaltyLeg p).stage.pivots.length).stage.ending.isUnbounded) := by
  simp only [penalized]
  split
  · next h =>
    have hnot : s.isRechecked p = false := by simp [isRechecked, h]
    simp [SimplexRun.Concludes, Record.stop, hnot, h]
  · next row h hne =>
    rw [(s.isRechecked_iff p).mpr ⟨hne, by rw [h]; rfl⟩, Bool.true_and]
    exact concludes_bothPhases s p _ (by simp [hr])
  · next h h' =>
    have hnot : s.isRechecked p = false := by simp [isRechecked, h, h']
    simp [SimplexRun.Concludes, Record.stop, hnot, h]
  · next h h' =>
    have hnot : s.isRechecked p = false := by simp [isRechecked, h, h']
    simp only [SimplexRun.Concludes, hnot, Bool.false_and, Bool.false_eq_true, if_false]
    exact Record.verdict?_finish ..

theorem concludes_run : (s.run p).Concludes (s.escapesPhaseOne p) := by
  rw [run, escapesPhaseOne, bothPhasesFrom?]
  cases s.discipline with
  | bigM =>
    have h := concludes_penalized s p (s.opening p) rfl
    simp only
    cases hre : s.isRechecked p <;> simpa [hre] using h
  | twoPhase =>
    simp only
    split
    · exact concludes_bothPhases s p _ rfl
    · exact concludes_phaseTwo s p _ _

variable {s p}

/-- The trace ends with the status of the solve exactly if no first phase stops without a bound;
after one that does, the status is infeasible and the trace ends with the missing bound. -/
theorem solve_trace_verdict (hv : p.validate = .ok ()) : ∃ solution, s.solve p = .ok solution ∧
    (Trace.verdict? solution.trace = some solution.status ↔ s.escapesPhaseOne p = false) ∧
    (s.escapesPhaseOne p = true → solution.status = .infeasible ∧
      Trace.verdict? solution.trace = some .unbounded) := by
  refine ⟨_, solve_of_validate hv, ?_⟩
  have h := concludes_run s p
  unfold SimplexRun.Concludes at h
  cases hescape : s.escapesPhaseOne p with
  | false => simpa [hescape] using h
  | true =>
    obtain ⟨hstatus, hverdict⟩ : _ ∧ _ := by simpa [hescape] using h
    simp [hstatus, hverdict]

/-- Without a tolerance no first phase stops without a bound. -/
theorem escapesPhaseOne_eq_false {s : SimplexSettings ℚ} {p : Problem ℚ}
    (hv : p.validate = .ok ()) (h0 : s.tolerance = 0) : s.escapesPhaseOne p = false := by
  unfold escapesPhaseOne
  split
  · next used hused =>
    have hexact : (s.phaseOneLeg p used).IsExact := Leg.isExact_of_tolerance_eq_zero h0
    have hbounded := phaseOneLeg_not_unbounded (p.length_of_validate hv) h0.ge hexact
    cases hend : (s.phaseOneLeg p used).stage.ending with
    | unbounded column ratios => exact absurd hend (hbounded column ratios)
    | optimal => rfl
    | outOfPivots => rfl
  · rfl

/-- Both rows hold at ten, and both coefficients are within the tolerance that their sum exceeds. -/
def splitColumnProblem : Problem ℚ :=
  ⟨⟨[1], .minimize⟩, [⟨[6e-10], .eq, 6e-9⟩, ⟨[6e-10], .eq, 6e-9⟩]⟩

theorem solve_trace_verdict_splitColumnProblem : splitColumnProblem.validate = .ok () ∧
    ∃ solution, (standard : SimplexSettings ℚ).solve splitColumnProblem = .ok solution ∧
      solution.status = .infeasible ∧ Trace.verdict? solution.trace = some .unbounded := by
  have hv : splitColumnProblem.validate = .ok () := by decide +kernel
  obtain ⟨solution, hsolve, -, hescape⟩ := solve_trace_verdict (s := standard) hv
  exact ⟨hv, solution, hsolve, hescape (by decide +kernel)⟩

/-- Under the usual settings of either discipline the trace of a feasible problem ends with a
missing bound, and the status is infeasible. -/
theorem trace_verdict_ne_status : splitColumnProblem.validate = .ok () ∧
    splitColumnProblem.Feasible [10] ∧ ∀ d ∈ [Discipline.bigM, .twoPhase],
      let solution := ({ (standard : SimplexSettings ℚ) with discipline := d }.run
        splitColumnProblem).solution
      solution.status = .infeasible ∧ Trace.verdict? solution.trace = some .unbounded := by
  decide +kernel

end SimplexSettings

end LinearProgram
