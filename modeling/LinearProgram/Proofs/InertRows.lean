import LinearProgram.Proofs.ZeroTolerance

/-! # Redundant rows

A row whose artificial cannot be driven out is zero but for columns of artificials. It stays as it
is, to the end of the pass and through the second phase: no pivot is in it and none changes it.
-/

namespace LinearProgram

open Tableau

namespace Tableau

variable {t u v : Tableau ℚ} {r : BasicRow ℚ} {i row col : ℕ} {rows : List ℕ} {tolerance : ℚ}

/-- If an artificial is basic in the row, the row is zero but for columns of artificials. -/
structure IsInertAt (t : Tableau ℚ) (i : ℕ) : Prop where
  idle : t.IsIdleAt i
  solution_eq_zero : ∀ r, t.rows[i]? = some r → t.isArtificial r.basic = true → r.solution = 0

/-- In this row the same artificial is basic in both tableaus and the row is the same, or no
artificial is basic in either. -/
structure KeepsArtificialAt (t u : Tableau ℚ) (i : ℕ) : Prop where
  columns_eq : u.columns = t.columns
  rows_iff : ∀ r, t.isArtificial r.basic = true → (u.rows[i]? = some r ↔ t.rows[i]? = some r)

namespace KeepsArtificialAt

theorem refl (t : Tableau ℚ) (i : ℕ) : t.KeepsArtificialAt t i := ⟨rfl, fun _ _ => Iff.rfl⟩

theorem trans (h : t.KeepsArtificialAt u i) (h' : u.KeepsArtificialAt v i) :
    t.KeepsArtificialAt v i := by
  refine ⟨h'.columns_eq.trans h.columns_eq, fun r hart => ?_⟩
  have hart' : u.isArtificial r.basic = true := (isArtificial_congr h.columns_eq _).trans hart
  exact (h'.rows_iff r hart').trans (h.rows_iff r hart)

theorem symm (h : t.KeepsArtificialAt u i) : u.KeepsArtificialAt t i := by
  refine ⟨h.columns_eq.symm, fun r hart => (h.rows_iff r ?_).symm⟩
  rwa [← isArtificial_congr h.columns_eq]

theorem isIdleAt (h : t.KeepsArtificialAt u i) (hi : t.IsIdleAt i) : u.IsIdleAt i := by
  intro r hr hart j hj
  rw [isArtificial_congr h.columns_eq] at hart hj
  exact hi r ((h.rows_iff r hart).mp hr) hart j hj

theorem isInertAt (h : t.KeepsArtificialAt u i) (hi : t.IsInertAt i) : u.IsInertAt i := by
  refine ⟨h.isIdleAt hi.idle, fun r hr hart => ?_⟩
  rw [isArtificial_congr h.columns_eq] at hart
  exact hi.solution_eq_zero r ((h.rows_iff r hart).mp hr) hart

end KeepsArtificialAt

theorem keepsArtificialAt_pivot (hr : t.rows[row]? = some r) (hne : r.entry col ≠ 0)
    (hcol : t.isArtificial col = false) (hi : t.IsIdleAt i) :
    t.KeepsArtificialAt (t.pivot tolerance row col) i :=
  ⟨columns_pivot .., fun _ hart => getElem?_pivot_iff hr hne hcol hi hart⟩

/-- In a tableau of the problem with artificials at zero, idle artificials are inert. -/
theorem IsSettled.isInertAt {p : Problem ℚ} (h : t.IsSettled p 0) (i : ℕ) : t.IsInertAt i := by
  refine ⟨h.idle i, fun r hr hart => ?_⟩
  have hmem := List.mem_of_getElem? hr
  exact le_antisymm (h.atMost r hmem hart) (h.feasible r hmem)

/-- An artificial that cannot be replaced is idle. -/
theorem isIdleAt_of_replacement?_eq_none (hw : t.IsRectangular) (hr : t.rows[row]? = some r)
    (hnone : t.replacement? 0 r = none) : t.IsIdleAt row := by
  intro s hs _ j hj
  obtain rfl : r = s := Option.some.inj (hr.symm.trans hs)
  have hle := replacement?_none hnone le_rfl (hw.width r (List.mem_of_getElem? hr)) hj
  exact abs_nonpos_iff.mp hle

/-- Idle rows stay to the end of the pass, and each row is idle once the pass is beyond it: what is
replaced in later rows does not change it. -/
structure PassKeeps (t : Tableau ℚ) (pass : List (DriveOut ℚ)) : Prop where
  idle : ∀ i, t.IsIdleAt i → t.KeepsArtificialAt (DriveOut.final t pass) i
  passed : ∀ d ∈ pass, ∀ i ≤ d.row, d.after.IsIdleAt i ∧
    d.after.KeepsArtificialAt (DriveOut.final t pass) i

theorem PassKeeps.cons {d : DriveOut ℚ} {pass : List (DriveOut ℚ)} (h : d.after.PassKeeps pass)
    (hidle : ∀ i ≤ d.row, d.after.IsIdleAt i)
    (hstep : ∀ i, t.IsIdleAt i → t.KeepsArtificialAt d.after i) : t.PassKeeps (d :: pass) := by
  constructor
  · intro i hi
    rw [DriveOut.final_cons]
    exact (hstep i hi).trans (h.idle i ((hstep i hi).isIdleAt hi))
  · rw [DriveOut.final_cons]
    exact List.forall_mem_cons.mpr ⟨fun i hle => ⟨hidle i hle, h.idle i (hidle i hle)⟩, h.passed⟩

theorem passKeeps_driveOut (hw : t.IsRectangular) (n : ℕ) :
    t.PassKeeps (t.driveOut 0 (List.range n)) := by
  -- the pass has come to the rows from `k` on, and those before are idle
  refine driveOut_induction 0 (motive := fun t rows pass => ∀ k, rows = List.range' k rows.length →
    (∀ i < k, t.IsIdleAt i) → t.IsRectangular → t.PassKeeps pass) ?_ ?_ ?_ ?_ t (List.range n) 0
    (by rw [List.length_range, List.range_eq_range']) nofun hw
  · intro t k _ _ _
    exact ⟨fun i _ => .refl t i, by simp⟩
  · intro t row rest pass hrow ih k hrange hidle hw
    obtain ⟨rfl, hrest⟩ := List.cons.inj hrange
    have hnone : t.IsIdleAt row := fun r hr hart => by rw [hrow r hr] at hart; cases hart
    exact ih (row + 1) hrest (Nat.forall_lt_succ_right.mpr ⟨hidle, hnone⟩) hw
  · intro t row rest pass r hr hart hnone ih k hrange hidle hw
    obtain ⟨rfl, hrest⟩ := List.cons.inj hrange
    have hidle' := Nat.forall_lt_succ_right.mpr
      ⟨hidle, isIdleAt_of_replacement?_eq_none hw hr hnone⟩
    refine PassKeeps.cons (ih (row + 1) hrest hidle' hw) ?_ fun i _ => .refl t i
    exact fun i hle => hidle' i (Nat.lt_succ_of_le hle)
  · intro t row rest pass r col hr hart hsome ih k hrange hidle hw
    obtain ⟨rfl, hrest⟩ := List.cons.inj hrange
    obtain ⟨hcol, hgt⟩ := replacement?_some hsome
    have hne : r.entry col ≠ 0 := abs_pos.mp hgt
    have hidle' : ∀ i < row + 1, (t.pivot 0 row col).IsIdleAt i :=
      Nat.forall_lt_succ_right.mpr
        ⟨fun i hi => (hidle i hi).pivot hr hne hcol, isIdleAt_pivot hr hcol⟩
    refine PassKeeps.cons (ih (row + 1) hrest hidle' (hw.pivot ..)) ?_ ?_
    · exact fun i hle => hidle' i (Nat.lt_succ_of_le hle)
    · exact fun i hi => keepsArtificialAt_pivot hr hne hcol hi

end Tableau

namespace Goal

variable {goal : Goal ℚ} {d : Pivot ℚ} {t : Tableau ℚ} {budget i : ℕ}

theorem IsStep.keepsArtificialAt (hd : goal.IsStep d) (h0 : 0 ≤ goal.tolerance)
    (hcol : d.before.isArtificial d.column = false) (hi : d.before.IsIdleAt i) :
    d.before.KeepsArtificialAt d.after i := by
  obtain ⟨r, hr, hpos⟩ := hd.leaving_row h0
  rw [hd.after_eq]
  exact keepsArtificialAt_pivot hr hpos.ne' hcol hi

/-- An idle artificial does not leave. -/
theorem IsStep.isArtificial_leaving (hd : goal.IsStep d) (h0 : 0 ≤ goal.tolerance)
    (hcol : d.before.isArtificial d.column = false) (hi : d.before.IsIdleAt d.row) :
    ∀ r, d.before.rows[d.row]? = some r → d.before.isArtificial r.basic = false := by
  intro r hr
  obtain ⟨r', hr', hpos⟩ := hd.leaving_row h0
  obtain rfl : r' = r := Option.some.inj (hr'.symm.trans hr)
  rw [← Bool.not_eq_true]
  exact fun hart => hpos.ne' (hi r' hr hart d.column hcol)

/-- A run that lets no artificial in keeps the rows in which artificials are idle. -/
theorem run_keepsArtificials (h0 : 0 ≤ goal.tolerance) (hidle : ∀ i, t.IsIdleAt i)
    (hall : ∀ j, goal.allowed j = true → t.isArtificial j = false) :
    (∀ d ∈ (goal.run budget t).pivots, d.before.isArtificial d.column = false ∧
      ∀ i, t.KeepsArtificialAt d.before i ∧ t.KeepsArtificialAt d.after i) ∧
    ∀ i, t.KeepsArtificialAt (goal.run budget t).final i := by
  have hcol : ∀ d ∈ (goal.run budget t).pivots, d.before.columns = t.columns →
      d.before.isArtificial d.column = false := fun d hd hc => by
    rw [isArtificial_congr hc]
    exact hall _ (enteringColumn_some h0 (isStep_of_mem_run d hd).entering).2.1
  have hstep : ∀ d ∈ (goal.run budget t).pivots, (∀ i, t.KeepsArtificialAt d.before i) →
      ∀ i, t.KeepsArtificialAt d.after i := fun d hd hbefore i =>
    (hbefore i).trans ((isStep_of_mem_run d hd).keepsArtificialAt h0
      (hcol d hd (hbefore i).columns_eq) ((hbefore i).isIdleAt (hidle i)))
  have hstart : ∀ i, t.KeepsArtificialAt t i := .refl t
  refine ⟨fun d hd => ?_, run_invariant (fun u => ∀ i, t.KeepsArtificialAt u i) hstart hstep⟩
  have hbefore := run_invariant_before (fun u => ∀ i, t.KeepsArtificialAt u i) hstart hstep d hd
  exact ⟨hcol d hd (hbefore 0).columns_eq, fun i => ⟨hbefore i, hstep d hd hbefore i⟩⟩

end Goal

/-- So does a stage, since loading the costs changes neither columns nor rows. -/
theorem Leg.keepsArtificials {leg : Leg ℚ} (h0 : 0 ≤ leg.goal.tolerance)
    (hidle : ∀ i, leg.loaded.IsIdleAt i)
    (hall : ∀ j, leg.goal.allowed j = true → leg.loaded.isArtificial j = false) :
    (∀ d ∈ leg.stage.pivots, d.before.isArtificial d.column = false ∧
      ∀ i, leg.loaded.KeepsArtificialAt d.before i ∧ leg.loaded.KeepsArtificialAt d.after i) ∧
    ∀ i, leg.loaded.KeepsArtificialAt leg.stage.final i := by
  have hstart (i : ℕ) : leg.loaded.KeepsArtificialAt leg.start i := ⟨rfl, fun _ _ => Iff.rfl⟩
  obtain ⟨hpivots, hfinal⟩ := @Goal.run_keepsArtificials leg.goal leg.start leg.budget h0
    (fun i => (hstart i).isIdleAt (hidle i)) hall
  refine ⟨fun d hd => ?_, fun i => (hstart i).trans (hfinal i)⟩
  obtain ⟨hcol, hkeeps⟩ := hpivots d hd
  exact ⟨hcol, fun i => ⟨(hstart i).trans (hkeeps i).1, (hstart i).trans (hkeeps i).2⟩⟩

namespace SimplexSettings

variable {s : SimplexSettings ℚ} {p : Problem ℚ} {t : Tableau ℚ} {r r' : Record ℚ} {used : ℕ}

/-- Without a tolerance the first phase leaves every basic artificial inert. -/
theorem isSettled_feasibleBasis_zero
    (hl : ∀ c ∈ p.constraints, c.coefficients.length = p.variableCount) (h0 : s.tolerance = 0)
    (hstatus : s.phaseOneStatus p used = none) : (s.feasibleBasis p used).IsSettled p 0 := by
  have hfirst : (s.phaseOneLeg p used).IsExact := Leg.isExact_of_tolerance_eq_zero h0
  have hzero := hfirst.artificials (atMost_of_phaseOneStatus_none hstatus)
  have hkeeps : ∀ d ∈ (s.phaseOneLeg p used).stage.pivots, d.KeepsRegion := fun d hd =>
    (hfirst.pivots d hd).toKeepsRegion
  exact isSettled_feasibleBasis hl h0.ge hzero hkeeps (isExact_driveOutPass hl h0 hstatus)

theorem passKeeps_driveOutPass
    (hl : ∀ c ∈ p.constraints, c.coefficients.length = p.variableCount) (h0 : s.tolerance = 0) :
    (s.phaseOneLeg p used).stage.final.PassKeeps (s.driveOutPass p used) := by
  rw [driveOutPass, h0]
  exact passKeeps_driveOut (Leg.isRectangular_final (p.isRectangular_standardForm hl)
    (Problem.length_costs ..)) _

/-- A first phase that ends well hands on its basis. -/
theorem eq_feasibleBasis_of_phaseOne (h : s.phaseOne p r = .feasible t r') :
    t = s.feasibleBasis p r.iterations ∧ s.phaseOneStatus p r.iterations = none := by
  obtain ⟨record, -, hphase⟩ := s.phaseOne_eq p r
  rw [h] at hphase
  cases hstatus : s.phaseOneStatus p r.iterations with
  | some status =>
    simp only [hstatus] at hphase
    cases hphase
  | none =>
    simp only [hstatus] at hphase
    cases hphase
    exact ⟨rfl, rfl⟩

/-- Without a tolerance, once the pass over the artificials is beyond a row, an artificial that is
basic there is inert and stays to the end of the pass. It stays through the second phase, in which
neither an artificial column nor a row of an artificial is chosen. -/
theorem artificials_inert (h0 : s.tolerance = 0) (hv : p.validate = .ok ())
    (h : s.phaseOne p r = .feasible t r') :
    (∀ d ∈ s.driveOutPass p r.iterations, ∀ i ≤ d.row,
      d.after.IsInertAt i ∧ d.after.KeepsArtificialAt t i) ∧
    (∀ i, t.IsInertAt i) ∧
    ∀ used, (∀ d ∈ (s.phaseTwoLeg p t used).stage.pivots,
        d.before.isArtificial d.column = false ∧
        (∀ x, d.before.rows[d.row]? = some x → d.before.isArtificial x.basic = false) ∧
        ∀ i, (d.before.IsInertAt i ∧ t.KeepsArtificialAt d.before i) ∧
          d.after.IsInertAt i ∧ t.KeepsArtificialAt d.after i) ∧
      ∀ i, (s.phaseTwoLeg p t used).stage.final.IsInertAt i ∧
        t.KeepsArtificialAt (s.phaseTwoLeg p t used).stage.final i := by
  have hl := p.length_of_validate hv
  obtain ⟨rfl, hstatus⟩ := eq_feasibleBasis_of_phaseOne h
  have hinert := (isSettled_feasibleBasis_zero hl h0 hstatus).isInertAt
  refine ⟨fun d hd i hle => ?_, hinert, fun used => ?_⟩
  · obtain ⟨-, hkeeps⟩ := (passKeeps_driveOutPass hl h0).passed d hd i hle
    exact ⟨hkeeps.symm.isInertAt (hinert i), hkeeps⟩
  · obtain ⟨hpivots, hfinal⟩ := @Leg.keepsArtificials
      (s.phaseTwoLeg p (s.feasibleBasis p r.iterations) used) h0.ge (fun i => (hinert i).idle)
      fun j hj => by simpa [phaseTwoLeg] using hj
    refine ⟨fun d hd => ?_, fun i => ⟨(hfinal i).isInertAt (hinert i), hfinal i⟩⟩
    obtain ⟨hcol, hkeeps⟩ := hpivots d hd
    have hinert' := fun i => (hkeeps i).1.isInertAt (hinert i)
    refine ⟨hcol, ?_, fun i => ⟨⟨hinert' i, (hkeeps i).1⟩,
      (hkeeps i).2.isInertAt (hinert i), (hkeeps i).2⟩⟩
    exact (Goal.isStep_of_mem_run d hd).isArtificial_leaving h0.ge hcol (hinert' d.row).idle

/-- A redundant row whose artificial stays, and behind it one whose artificial is replaced. -/
def heldRowProblem : Problem ℚ :=
  ⟨⟨[1, 2, 1], .maximize⟩, [⟨[1, 1, 0], .eq, 2⟩, ⟨[2, 2, 0], .eq, 4⟩, ⟨[0, 0, -1], .eq, 0⟩]⟩

/-- Both phases, without a tolerance. -/
def exactPhases : SimplexSettings ℚ := ⟨none, 0, .twoPhase, 1⟩

theorem artificials_inert_heldRowProblem : heldRowProblem.validate = .ok () ∧
    ∃ t r', exactPhases.phaseOne heldRowProblem (exactPhases.opening heldRowProblem) =
        .feasible t r' ∧
      (exactPhases.driveOutPass heldRowProblem 0).map (·.column) = [none, some 2] ∧
      t.basicVariables = ["x1", "a2", "x3"] ∧ t.IsInertAt 1 ∧
      (exactPhases.phaseTwoLeg heldRowProblem t 1).stage.final.basicVariables =
        ["x2", "a2", "x3"] ∧
      t.KeepsArtificialAt (exactPhases.phaseTwoLeg heldRowProblem t 1).stage.final 1 := by
  have hv : heldRowProblem.validate = .ok () := by decide +kernel
  have hstatus : exactPhases.phaseOneStatus heldRowProblem
      (exactPhases.opening heldRowProblem).iterations = none := by decide +kernel
  obtain ⟨r', -, h⟩ := phaseOne_eq exactPhases heldRowProblem (exactPhases.opening heldRowProblem)
  rw [hstatus] at h
  obtain ⟨-, hinert, hsecond⟩ := artificials_inert rfl hv h
  exact ⟨hv, _, r', h, by decide +kernel, by decide +kernel, hinert 1, by decide +kernel,
    ((hsecond 1).2 1).2⟩

end SimplexSettings

end LinearProgram
