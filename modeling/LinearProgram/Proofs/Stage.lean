import LinearProgram.Simplex.Stage

/-! # Runs of the pivot loop

Every pivot of a stage is a step of its goal, and what the pivots keep holds at the final tableau.
The ending tells why no pivot follows. A larger budget changes nothing once a stage has an ending of
its own.
-/

namespace LinearProgram

variable {α : Type} [Scalar α]

namespace Goal

/-- The pivot is the one that the goal demands. -/
structure IsStep (goal : Goal α) (d : Pivot α) : Prop where
  entering : goal.entering? d.before = some d.column
  ratios_eq : d.ratios = d.before.ratios goal.tolerance d.column
  leaving : Tableau.leavingRow goal.tolerance d.ratios = some d.row
  after_eq : d.after = d.before.pivot goal.tolerance d.row d.column

variable {goal : Goal α} {budget : Nat} {t : Tableau α} {column row : Nat}

theorem run_of_none (h : goal.entering? t = none) : goal.run budget t = ⟨[], t, .optimal⟩ := by
  cases budget <;> rw [run, h]

theorem run_zero_of_some (h : goal.entering? t = some column) :
    goal.run 0 t = ⟨[], t, .outOfPivots⟩ := by
  rw [run, h]

theorem run_succ_of_none (h : goal.entering? t = some column)
    (hrow : Tableau.leavingRow goal.tolerance (t.ratios goal.tolerance column) = none) :
    goal.run (budget + 1) t = ⟨[], t, .unbounded column (t.ratios goal.tolerance column)⟩ := by
  rw [run, h]
  simp only [hrow]

theorem run_succ_of_some (h : goal.entering? t = some column)
    (hrow : Tableau.leavingRow goal.tolerance (t.ratios goal.tolerance column) = some row) :
    goal.run (budget + 1) t =
      { goal.run budget (t.pivot goal.tolerance row column) with
        pivots := ⟨t, column, t.ratios goal.tolerance column, row,
          t.pivot goal.tolerance row column⟩ ::
            (goal.run budget (t.pivot goal.tolerance row column)).pivots } := by
  rw [run, h]
  simp only [hrow]

/-- A run has no pivot, or it goes on behind its first one. -/
theorem run_induction {motive : Nat → Tableau α → Stage α → Prop}
    (optimal : ∀ budget t, goal.entering? t = none → motive budget t ⟨[], t, .optimal⟩)
    (outOfPivots : ∀ t column, goal.entering? t = some column →
      motive 0 t ⟨[], t, .outOfPivots⟩)
    (unbounded : ∀ budget t column, goal.entering? t = some column →
      Tableau.leavingRow goal.tolerance (t.ratios goal.tolerance column) = none →
      motive (budget + 1) t ⟨[], t, .unbounded column (t.ratios goal.tolerance column)⟩)
    (step : ∀ budget d, goal.IsStep d → motive budget d.after (goal.run budget d.after) →
      motive (budget + 1) d.before
        { goal.run budget d.after with pivots := d :: (goal.run budget d.after).pivots })
    (budget : Nat) (t : Tableau α) : motive budget t (goal.run budget t) := by
  induction budget generalizing t with
  | zero =>
    cases h : goal.entering? t with
    | none => rw [run_of_none h]; exact optimal 0 t h
    | some column => rw [run_zero_of_some h]; exact outOfPivots t column h
  | succ budget ih =>
    cases h : goal.entering? t with
    | none => rw [run_of_none h]; exact optimal _ t h
    | some column =>
      cases hrow : Tableau.leavingRow goal.tolerance (t.ratios goal.tolerance column) with
      | none => rw [run_succ_of_none h hrow]; exact unbounded budget t column h hrow
      | some row =>
        rw [run_succ_of_some h hrow]
        exact step budget ⟨t, column, t.ratios goal.tolerance column, row, _⟩ ⟨h, rfl, hrow, rfl⟩
          (ih _)

theorem isStep_of_mem_run : ∀ d ∈ (goal.run budget t).pivots, goal.IsStep d := by
  refine run_induction (motive := fun _ _ stage => ∀ d ∈ stage.pivots, goal.IsStep d)
    ?_ ?_ ?_ ?_ budget t
  · simp
  · simp
  · simp
  · intro _ d hd ih
    exact List.forall_mem_cons.mpr ⟨hd, ih⟩

/-- What every pivot of a run keeps holds at its end. -/
theorem run_invariant (inv : Tableau α → Prop) (h0 : inv t)
    (hstep : ∀ d ∈ (goal.run budget t).pivots, inv d.before → inv d.after) :
    inv (goal.run budget t).final := by
  refine run_induction (motive := fun _ t stage => inv t →
    (∀ d ∈ stage.pivots, inv d.before → inv d.after) → inv stage.final)
    ?_ ?_ ?_ ?_ budget t h0 hstep
  · exact fun _ _ _ h0 _ => h0
  · exact fun _ _ _ h0 _ => h0
  · exact fun _ _ _ _ _ h0 _ => h0
  · intro _ d _ ih h0 hstep
    obtain ⟨hd, hrest⟩ := List.forall_mem_cons.mp hstep
    exact ih (hd h0) hrest

/-- What every pivot of a run keeps holds before each of them. -/
theorem run_invariant_before (inv : Tableau α → Prop) (h0 : inv t)
    (hstep : ∀ d ∈ (goal.run budget t).pivots, inv d.before → inv d.after) :
    ∀ d ∈ (goal.run budget t).pivots, inv d.before := by
  refine run_induction (motive := fun _ t stage => inv t →
    (∀ d ∈ stage.pivots, inv d.before → inv d.after) → ∀ d ∈ stage.pivots, inv d.before)
    ?_ ?_ ?_ ?_ budget t h0 hstep
  · simp
  · simp
  · simp
  · intro _ d _ ih h0 hstep
    obtain ⟨hd, hrest⟩ := List.forall_mem_cons.mp hstep
    exact List.forall_mem_cons.mpr ⟨h0, ih (hd h0) hrest⟩

/-- What every pivot of a run keeps holds after each of them. -/
theorem run_invariant_after (inv : Tableau α → Prop) (h0 : inv t)
    (hstep : ∀ d ∈ (goal.run budget t).pivots, inv d.before → inv d.after) :
    ∀ d ∈ (goal.run budget t).pivots, inv d.after := fun d hd =>
  hstep d hd (run_invariant_before inv h0 hstep d hd)

/-- The tableau after the last pivot is the final one. -/
theorem getLast?_run (goal : Goal α) (budget : Nat) (t : Tableau α) :
    (t :: (goal.run budget t).pivots.map (·.after)).getLast? = some (goal.run budget t).final := by
  refine run_induction (motive := fun _ t stage =>
    (t :: stage.pivots.map (·.after)).getLast? = some stage.final) ?_ ?_ ?_ ?_ budget t
  · exact fun _ _ _ => rfl
  · exact fun _ _ _ => rfl
  · exact fun _ _ _ _ _ => rfl
  · intro _ d _ ih
    exact ih

theorem entering?_of_optimal (h : (goal.run budget t).ending = .optimal) :
    goal.entering? (goal.run budget t).final = none := by
  refine run_induction (motive := fun _ _ stage => stage.ending = .optimal →
    goal.entering? stage.final = none) ?_ ?_ ?_ ?_ budget t h
  · exact fun _ _ hcol _ => hcol
  · rintro _ _ _ ⟨⟩
  · rintro _ _ _ _ _ ⟨⟩
  · exact fun _ _ _ ih => ih

theorem entering?_of_unbounded {ratios : List (Option α)}
    (h : (goal.run budget t).ending = .unbounded column ratios) :
    goal.entering? (goal.run budget t).final = some column ∧ Tableau.leavingRow goal.tolerance
      ((goal.run budget t).final.ratios goal.tolerance column) = none := by
  refine run_induction (motive := fun _ _ stage => stage.ending = .unbounded column ratios →
    goal.entering? stage.final = some column ∧ Tableau.leavingRow goal.tolerance
      (stage.final.ratios goal.tolerance column) = none) ?_ ?_ ?_ ?_ budget t h
  · rintro _ _ _ ⟨⟩
  · rintro _ _ _ ⟨⟩
  · rintro _ _ _ hcol hrow ⟨⟩
    exact ⟨hcol, hrow⟩
  · exact fun _ _ _ ih => ih

/-- A larger budget changes nothing once the pivots suffice. -/
theorem run_mono {larger : Nat} (hle : budget ≤ larger)
    (h : (goal.run budget t).ending ≠ .outOfPivots) : goal.run larger t = goal.run budget t := by
  refine run_induction (motive := fun budget t stage => stage.ending ≠ .outOfPivots →
    ∀ larger ≥ budget, goal.run larger t = stage) ?_ ?_ ?_ ?_ budget t h larger hle
  · exact fun _ _ hcol _ _ _ => run_of_none hcol
  · exact fun _ _ _ h => absurd rfl h
  · intro budget t column hcol hrow _ larger hle
    obtain ⟨larger, rfl⟩ := Nat.exists_eq_succ_of_ne_zero (n := larger) (by omega)
    exact run_succ_of_none hcol hrow
  · rintro budget ⟨before, column, ratios, row, after⟩ ⟨hcol, hratios, hrow, hafter⟩ ih h larger hle
    obtain ⟨larger, rfl⟩ := Nat.exists_eq_succ_of_ne_zero (n := larger) (by omega)
    simp only at hcol hratios hrow hafter ih h
    subst hratios hafter
    rw [run_succ_of_some hcol hrow, ih h larger (by omega)]

theorem length_pivots_run_le (goal : Goal α) (budget : Nat) (t : Tableau α) :
    (goal.run budget t).pivots.length ≤ budget := by
  refine run_induction (motive := fun budget _ stage => stage.pivots.length ≤ budget)
    ?_ ?_ ?_ ?_ budget t
  · exact fun _ _ _ => Nat.zero_le _
  · exact fun _ _ _ => Nat.zero_le _
  · exact fun _ _ _ _ _ => Nat.zero_le _
  · exact fun _ _ _ ih => Nat.succ_le_succ ih

/-- A run is out of pivots only once the whole budget is used. -/
theorem length_pivots_run_of_outOfPivots (h : (goal.run budget t).ending = .outOfPivots) :
    (goal.run budget t).pivots.length = budget := by
  refine run_induction (motive := fun budget _ stage => stage.ending = .outOfPivots →
    stage.pivots.length = budget) ?_ ?_ ?_ ?_ budget t h
  · rintro _ _ _ ⟨⟩
  · exact fun _ _ _ _ => rfl
  · rintro _ _ _ _ _ ⟨⟩
  · exact fun _ _ _ ih h => congrArg Nat.succ (ih h)

/-- A larger budget goes on behind the same pivots. -/
theorem pivots_run_isPrefix (goal : Goal α) {larger : Nat} (hle : budget ≤ larger)
    (t : Tableau α) : (goal.run budget t).pivots <+: (goal.run larger t).pivots := by
  refine run_induction (motive := fun budget t stage => ∀ larger ≥ budget,
    stage.pivots <+: (goal.run larger t).pivots) ?_ ?_ ?_ ?_ budget t larger hle
  · exact fun _ _ _ _ _ => List.nil_prefix
  · exact fun _ _ _ _ _ => List.nil_prefix
  · exact fun _ _ _ _ _ _ _ => List.nil_prefix
  · rintro budget ⟨before, column, ratios, row, after⟩ ⟨hcol, hratios, hrow, hafter⟩ ih larger hle
    obtain ⟨larger, rfl⟩ := Nat.exists_eq_succ_of_ne_zero (n := larger) (by omega)
    simp only at hcol hratios hrow hafter ih ⊢
    subst hratios hafter
    rw [run_succ_of_some hcol hrow]
    exact (List.prefix_cons_inj _).mpr (ih larger (by omega))

end Goal

/-- Stages that differ in their budget only are the same once the smaller budget suffices. -/
theorem Leg.stage_mono {goal : Goal α} {t : Tableau α} {costs : List α} {budget larger : Nat}
    (hle : budget ≤ larger) (h : (stage ⟨goal, t, costs, budget⟩).ending ≠ .outOfPivots) :
    stage ⟨goal, t, costs, larger⟩ = stage ⟨goal, t, costs, budget⟩ :=
  Goal.run_mono hle h

end LinearProgram
