import LinearProgram.Proofs.Verdict

/-! # Exact stages

A stage is exact when the tolerance decides nothing in it: not what is priced out, which row leaves,
what is rounded away, whether to stop, or whether an artificial counts as zero. Exact stages price
their costs and give right verdicts. Without a tolerance every stage is exact.
-/

namespace LinearProgram

/-- The pivot is one without a tolerance. -/
structure Pivot.IsExact (d : Pivot ℚ) : Prop extends d.KeepsRegion where
  after_eq : d.after = d.before.pivot 0 d.row d.column

instance (d : Pivot ℚ) : Decidable d.IsExact :=
  decidable_of_iff (d.KeepsRegion ∧ d.after = d.before.pivot 0 d.row d.column)
    ⟨fun h => ⟨h.1, h.2⟩, fun h => ⟨h.1, h.2⟩⟩

/-- Without a tolerance the goal would stop at the tableau as well. -/
def Ending.IsExact (goal : Goal ℚ) (t : Tableau ℚ) : Ending ℚ → Prop
  | optimal => ∀ col < t.columnCount, goal.allowed col = true → t.gain goal.sense col ≤ 0
  | unbounded col _ => ∀ r ∈ t.rows, r.entry col ≤ 0
  | outOfPivots => True

instance (goal : Goal ℚ) (t : Tableau ℚ) (ending : Ending ℚ) : Decidable (ending.IsExact goal t) :=
  match ending with
  | .optimal => inferInstanceAs (Decidable
      (∀ col < t.columnCount, goal.allowed col = true → t.gain goal.sense col ≤ 0))
  | .unbounded col _ => inferInstanceAs (Decidable (∀ r ∈ t.rows, r.entry col ≤ 0))
  | .outOfPivots => inferInstanceAs (Decidable True)

instance (level : ℚ) (t : Tableau ℚ) : Decidable (t.ArtificialsAtMost level) :=
  inferInstanceAs (Decidable (∀ r ∈ t.rows, t.isArtificial r.basic = true → r.solution ≤ level))

namespace Leg

/-- The tolerance decides nothing. -/
structure IsExact (leg : Leg ℚ) : Prop where
  start_eq : leg.start = leg.loaded.setObjective 0 leg.costs
  pivots : ∀ d ∈ leg.stage.pivots, d.IsExact
  ending : leg.stage.ending.IsExact leg.goal leg.stage.final
  artificials : leg.stage.final.ArtificialsAtMost leg.goal.tolerance →
    leg.stage.final.ArtificialsAtMost 0

instance (leg : Leg ℚ) : Decidable leg.IsExact :=
  decidable_of_iff (leg.start = leg.loaded.setObjective 0 leg.costs ∧
      (∀ d ∈ leg.stage.pivots, d.IsExact) ∧ leg.stage.ending.IsExact leg.goal leg.stage.final ∧
      (leg.stage.final.ArtificialsAtMost leg.goal.tolerance →
        leg.stage.final.ArtificialsAtMost 0))
    ⟨fun h => ⟨h.1, h.2.1, h.2.2.1, h.2.2.2⟩, fun h => ⟨h.1, h.2, h.3, h.4⟩⟩

variable {leg : Leg ℚ} {p : Problem ℚ} {col : ℕ} {ratios : List (Option ℚ)}

/-- Without a tolerance every stage is exact. -/
theorem isExact_of_tolerance_eq_zero (h : leg.goal.tolerance = 0) : leg.IsExact := by
  have h0 : (0 : ℚ) ≤ leg.goal.tolerance := h.ge
  refine ⟨by rw [start, h], fun d hd => ?_, ?_, fun hmost => h ▸ hmost⟩
  · have hstep := Goal.isStep_of_mem_run d hd
    have hafter : d.after = d.before.pivot 0 d.row d.column := by rw [hstep.after_eq, h]
    refine ⟨⟨fun r hr s hs hpos => ?_, by rw [hafter]⟩, hafter⟩
    have hleaving := hstep.leaving
    rw [hstep.ratios_eq] at hleaving
    obtain ⟨r', hr', -, hlow⟩ := Tableau.leavingRow_some h0 hleaving
    obtain rfl : r = r' := Option.some.inj (hr.symm.trans hr')
    have hle := hlow s hs (by rwa [h])
    rwa [h, sub_zero] at hle
  · cases hend : leg.stage.ending with
    | optimal =>
      intro col hcol hall
      have hle := Tableau.enteringColumn_none (Goal.entering?_of_optimal hend) hcol hall
      rwa [h] at hle
    | unbounded col ratios =>
      intro r hr
      have hle := Tableau.leavingRow_none (Goal.entering?_of_unbounded hend).2 hr
      rwa [h] at hle
    | outOfPivots => trivial

section

variable (he : leg.IsExact) (h0 : 0 ≤ leg.goal.tolerance) (h : leg.loaded.IsFormOf p)

include he h

theorem IsExact.start (hc : leg.costs.length = leg.loaded.columnCount) :
    leg.start.IsFormOf p ∧ leg.start.Prices leg.costs := by
  rw [he.start_eq]
  exact ⟨h.setObjective .., Tableau.prices_setObjective h.solved hc⟩

include h0

omit h in
theorem IsExact.after {d : Pivot ℚ} (hd : d ∈ leg.stage.pivots)
    (hbefore : d.before.IsFormOf p ∧ d.before.Prices leg.costs) :
    d.after.IsFormOf p ∧ d.after.Prices leg.costs := by
  have hstep := Goal.isStep_of_mem_run d hd
  have hexact := he.pivots d hd
  obtain ⟨r, hr, hpos⟩ := hstep.leaving_row h0
  refine ⟨hstep.isFormOf h0 hexact.toKeepsRegion hbefore.1, ?_⟩
  rw [hexact.after_eq]
  exact hbefore.2.pivot hbefore.1.solved hr hpos.ne'

/-- In an exact stage every pivot starts from a tableau of the problem that prices the costs. -/
theorem IsExact.before (hc : leg.costs.length = leg.loaded.columnCount) :
    ∀ d ∈ leg.stage.pivots, d.before.IsFormOf p ∧ d.before.Prices leg.costs :=
  Goal.run_invariant_before (fun t => t.IsFormOf p ∧ t.Prices leg.costs) (he.start h hc)
    fun _ hd => he.after h0 hd

/-- An exact stage ends with a tableau of the problem that prices the costs. -/
theorem IsExact.final (hc : leg.costs.length = leg.loaded.columnCount) :
    leg.stage.final.IsFormOf p ∧ leg.stage.final.Prices leg.costs :=
  Goal.run_invariant (fun t => t.IsFormOf p ∧ t.Prices leg.costs) (he.start h hc)
    fun _ hd => he.after h0 hd

end

end Leg

end LinearProgram
