import LinearProgram.Proofs.Form
import LinearProgram.Simplex.DriveOut

/-! # Driving out artificials

After an exact pass over all rows the artificials that are still basic are idle, at the levels that
they had before.
-/

namespace LinearProgram

/-- The artificial is replaced at level zero and without rounding, or it is kept because its row has
no entry at all in any other kind of column. -/
structure DriveOut.IsExact (d : DriveOut ℚ) : Prop where
  level : ∀ r, d.before.rows[d.row]? = some r → d.column ≠ none → r.solution = 0
  rows_eq : ∀ col, d.column = some col → d.after.rows = (d.before.pivot 0 d.row col).rows
  kept : d.column = none → d.before.IsIdleAt d.row

instance (d : DriveOut ℚ) : Decidable d.IsExact :=
  decidable_of_iff ((∀ r ∈ d.before.rows[d.row]?, d.column ≠ none → r.solution = 0) ∧
      (∀ col ∈ d.column, d.after.rows = (d.before.pivot 0 d.row col).rows) ∧
      (d.column = none → d.before.IsIdleAt d.row))
    ⟨fun h => ⟨h.1, h.2.1, h.2.2⟩, fun h => ⟨h.1, h.2, h.3⟩⟩

/-- The pass finds an artificial in the row, and replaces it if it can. -/
structure DriveOut.IsStep {α : Type} [Scalar α] (tolerance : α) (d : DriveOut α) : Prop where
  artificial : ∃ r, d.before.rows[d.row]? = some r ∧ d.before.isArtificial r.basic = true ∧
    d.before.replacement? tolerance r = d.column
  after_eq : d.after = match d.column with
    | none => d.before
    | some col => d.before.pivot tolerance d.row col

theorem DriveOut.final_cons {α : Type} [Scalar α] (t : Tableau α) (d : DriveOut α)
    (pass : List (DriveOut α)) : final t (d :: pass) = final d.after pass := by
  rw [final, final, List.getLast?_cons]
  cases pass.getLast? <;> rfl

namespace Tableau

/-- A pass is empty, or it goes on behind its first row. -/
theorem driveOut_induction {α : Type} [Scalar α] (tolerance : α)
    {motive : Tableau α → List ℕ → List (DriveOut α) → Prop}
    (done : ∀ t, motive t [] [])
    (skipped : ∀ t row rest pass,
      (∀ r, t.rows[row]? = some r → t.isArtificial r.basic = false) → motive t rest pass →
      motive t (row :: rest) pass)
    (kept : ∀ t row rest pass r, t.rows[row]? = some r → t.isArtificial r.basic = true →
      t.replacement? tolerance r = none → motive t rest pass →
      motive t (row :: rest) (⟨row, t, none, t⟩ :: pass))
    (replaced : ∀ t row rest pass r col, t.rows[row]? = some r → t.isArtificial r.basic = true →
      t.replacement? tolerance r = some col → motive (t.pivot tolerance row col) rest pass →
      motive t (row :: rest) (⟨row, t, some col, t.pivot tolerance row col⟩ :: pass))
    (t : Tableau α) (rows : List ℕ) : motive t rows (t.driveOut tolerance rows) := by
  induction rows generalizing t with
  | nil => exact done t
  | cons row rest ih =>
    cases hr : (t.rows[row]?).filter fun r => t.isArtificial r.basic with
    | none =>
      rw [driveOut, hr]
      refine skipped t row rest _ (fun r hrow => ?_) (ih t)
      simpa [hrow, Option.filter_some] using hr
    | some r =>
      obtain ⟨hrow, hart⟩ := Option.filter_eq_some_iff.mp hr
      cases hcol : t.replacement? tolerance r with
      | none =>
        rw [driveOut, hr]
        simp only [hcol]
        exact kept t row rest _ r hrow hart hcol (ih t)
      | some col =>
        rw [driveOut, hr]
        simp only [hcol]
        exact replaced t row rest _ r col hrow hart hcol (ih _)

section Pass

variable {α : Type} [Scalar α] {tolerance : α} {t : Tableau α} {rows : List ℕ}

theorem isStep_of_mem_driveOut : ∀ d ∈ t.driveOut tolerance rows, d.IsStep tolerance := by
  refine driveOut_induction tolerance
    (motive := fun _ _ pass => ∀ d ∈ pass, DriveOut.IsStep tolerance d) ?_ ?_ ?_ ?_ t rows
  · simp
  · exact fun _ _ _ _ _ ih => ih
  · exact fun t row rest pass r hr hart hnone ih =>
      List.forall_mem_cons.mpr ⟨⟨⟨r, hr, hart, hnone⟩, rfl⟩, ih⟩
  · exact fun t row rest pass r col hr hart hsome ih =>
      List.forall_mem_cons.mpr ⟨⟨⟨r, hr, hart, hsome⟩, rfl⟩, ih⟩

/-- What a pass keeps in every row holds before each of them and at its end. -/
theorem driveOut_invariant (inv : Tableau α → Prop) (h0 : inv t)
    (hstep : ∀ d ∈ t.driveOut tolerance rows, inv d.before → inv d.after) :
    (∀ d ∈ t.driveOut tolerance rows, inv d.before) ∧
      inv (DriveOut.final t (t.driveOut tolerance rows)) := by
  refine driveOut_induction tolerance (motive := fun t _ pass => inv t →
    (∀ d ∈ pass, inv d.before → inv d.after) →
      (∀ d ∈ pass, inv d.before) ∧ inv (DriveOut.final t pass)) ?_ ?_ ?_ ?_ t rows h0 hstep
  · exact fun t h0 _ => ⟨by simp, h0⟩
  · exact fun _ _ _ _ _ ih => ih
  · intro t row rest pass r _ _ _ ih h0 hstep
    rw [DriveOut.final_cons, List.forall_mem_cons, and_assoc]
    exact ⟨h0, ih h0 (List.forall_mem_cons.mp hstep).2⟩
  · intro t row rest pass r col _ _ _ ih h0 hstep
    obtain ⟨hd, hrest⟩ := List.forall_mem_cons.mp hstep
    rw [DriveOut.final_cons, List.forall_mem_cons, and_assoc]
    exact ⟨h0, ih (hd h0) hrest⟩

/-- What a pivot keeps holds at the end of a pass. -/
theorem driveOut_invariant_pivot (inv : Tableau α → Prop) (h0 : inv t)
    (hpivot : ∀ t row col, inv t → inv (t.pivot tolerance row col)) :
    inv (DriveOut.final t (t.driveOut tolerance rows)) := by
  refine (driveOut_invariant inv h0 fun d hd hbefore => ?_).2
  rw [(isStep_of_mem_driveOut d hd).after_eq]
  cases d.column with
  | none => exact hbefore
  | some col => exact hpivot _ _ _ hbefore

theorem columns_driveOut (tolerance : α) (t : Tableau α) (rows : List ℕ) :
    (DriveOut.final t (t.driveOut tolerance rows)).columns = t.columns :=
  driveOut_invariant_pivot (fun u => u.columns = t.columns) rfl fun _ _ _ h =>
    (columns_pivot ..).trans h

theorem IsRectangular.driveOut (h : t.IsRectangular) :
    (DriveOut.final t (t.driveOut tolerance rows)).IsRectangular :=
  driveOut_invariant_pivot _ h fun _ _ _ h => h.pivot ..

end Pass

variable {p : Problem ℚ} {t : Tableau ℚ} {r : BasicRow ℚ} {row col : ℕ} {rows : List ℕ}
  {level tolerance : ℚ}

theorem replacement?_some (h : t.replacement? tolerance r = some col) :
    t.isArtificial col = false ∧ tolerance < |r.entry col| := by
  have hfound := List.find?_some h
  simpa only [Bool.and_eq_true, Bool.not_eq_true', decide_eq_true_eq, Scalar.abs_eq] using hfound

theorem replacement?_none (h : t.replacement? tolerance r = none) (h0 : 0 ≤ tolerance)
    (hw : r.entries.length = t.columnCount) (hcol : t.isArtificial col = false) :
    |r.entry col| ≤ tolerance := by
  by_cases hlt : col < t.columnCount
  · have hnone := List.find?_eq_none.mp h col (List.mem_range.mpr hlt)
    simpa [hcol, Scalar.abs_eq] using hnone
  · rw [Row.entry_of_length_le (hw.trans_le (not_lt.mp hlt)), abs_zero]
    exact h0

/-- Replacing an artificial at zero keeps the levels of the others. -/
theorem ArtificialsAtMost.exchange (h : t.ArtificialsAtMost level) (hs : t.IsSolved)
    (hr : t.rows[row]? = some r) (hne : r.entry col ≠ 0) (hz : r.solution = 0)
    (hcol : t.isArtificial col = false) : (t.pivot 0 row col).ArtificialsAtMost level := by
  intro s' hs' hart
  rw [isArtificial_pivot] at hart
  obtain ⟨-, hb⟩ | ⟨s, hmem, hsol, hb⟩ := solution_pivot_of_zero hs hr hne hz hs'
  · rw [hb, hcol] at hart
    cases hart
  · rw [hsol]
    exact h s hmem (hb ▸ hart)

/-- The first row of a list joins those that have a property, and these keep one. -/
theorem mem_or_of_cons {P Q : ℕ → Prop} {rest : List ℕ} {i : ℕ} (hrow : Q row)
    (hkeep : ∀ i, P i → Q i) (h : i ∈ row :: rest ∨ P i) : i ∈ rest ∨ Q i := by
  rcases h with h | h
  · rcases List.mem_cons.mp h with rfl | h
    · exact Or.inr hrow
    · exact Or.inl h
  · exact Or.inr (hkeep i h)

/-- An exact pass keeps the tableau one of the problem, and leaves the artificials idle in the rows
that it goes through. -/
theorem IsFormOf.driveOut (h : t.IsFormOf p) (h0 : 0 ≤ tolerance)
    (hlevel : t.ArtificialsAtMost level) (hex : ∀ d ∈ t.driveOut tolerance rows, d.IsExact) :
    (DriveOut.final t (t.driveOut tolerance rows)).IsFormOf p ∧
      (DriveOut.final t (t.driveOut tolerance rows)).ArtificialsAtMost level ∧
      (DriveOut.final t (t.driveOut tolerance rows)).rows.length = t.rows.length ∧
      ∀ i, i ∈ rows ∨ t.IsIdleAt i →
        (DriveOut.final t (t.driveOut tolerance rows)).IsIdleAt i := by
  refine driveOut_induction tolerance (motive := fun t rows pass => t.IsFormOf p →
    t.ArtificialsAtMost level → (∀ d ∈ pass, d.IsExact) →
      (DriveOut.final t pass).IsFormOf p ∧ (DriveOut.final t pass).ArtificialsAtMost level ∧
      (DriveOut.final t pass).rows.length = t.rows.length ∧
      ∀ i, i ∈ rows ∨ t.IsIdleAt i → (DriveOut.final t pass).IsIdleAt i)
    ?_ ?_ ?_ ?_ t rows h hlevel hex
  · intro t h hlevel _
    exact ⟨h, hlevel, rfl, fun i hi => hi.resolve_left List.not_mem_nil⟩
  · intro t row rest pass hrow ih h hlevel hex
    obtain ⟨hform, hatMost, hlen, hidle⟩ := ih h hlevel hex
    have hidleRow : t.IsIdleAt row := fun r hr hart => by rw [hrow r hr] at hart; cases hart
    refine ⟨hform, hatMost, hlen, fun i hi => hidle i ?_⟩
    exact mem_or_of_cons hidleRow (fun _ => id) hi
  · intro t row rest pass r hr hart hnone ih h hlevel hex
    obtain ⟨hd, hrest⟩ := List.forall_mem_cons.mp hex
    obtain ⟨hform, hatMost, hlen, hidle⟩ := ih h hlevel hrest
    rw [DriveOut.final_cons]
    refine ⟨hform, hatMost, hlen, fun i hi => hidle i ?_⟩
    exact mem_or_of_cons (hd.kept rfl) (fun _ => id) hi
  · intro t row rest pass r col hr hart hsome ih h hlevel hex
    obtain ⟨hd, hrest⟩ := List.forall_mem_cons.mp hex
    obtain ⟨hcol, hgt⟩ := replacement?_some hsome
    have hne : r.entry col ≠ 0 := abs_pos.mp (h0.trans_lt hgt)
    have hz : r.solution = 0 := hd.level r hr (Option.some_ne_none col)
    have hrows := hd.rows_eq col rfl
    have hcols : (t.pivot tolerance row col).columns = (t.pivot 0 row col).columns := by simp
    obtain ⟨hform, hatMost, hlen, hidle⟩ := ih
      ((h.exchange hr hne hz).of_rows_eq hcols hrows)
      ((hlevel.exchange h.solved hr hne hz hcol).of_rows_eq hcols hrows) hrest
    rw [DriveOut.final_cons]
    refine ⟨hform, hatMost, by rw [hlen, length_rows_pivot], fun i hi => hidle i ?_⟩
    exact mem_or_of_cons (isIdleAt_pivot hr hcol) (fun _ hi => hi.pivot hr hne hcol) hi

/-- After an exact pass over all rows every basic artificial is idle. -/
theorem IsFormOf.isSettled_driveOut (h : t.IsFormOf p) (h0 : 0 ≤ tolerance)
    (hlevel : t.ArtificialsAtMost level)
    (hex : ∀ d ∈ t.driveOut tolerance (List.range t.rows.length), d.IsExact) :
    (DriveOut.final t (t.driveOut tolerance (List.range t.rows.length))).IsSettled p level := by
  obtain ⟨hform, hatMost, hlen, hidle⟩ := h.driveOut h0 hlevel hex
  refine ⟨hform, fun i => ?_, hatMost⟩
  by_cases hi : i < t.rows.length
  · exact hidle i (Or.inl (List.mem_range.mpr hi))
  · intro r hr
    rw [List.getElem?_eq_none (hlen.trans_le (not_lt.mp hi))] at hr
    cases hr

/-- Without a tolerance a pass from artificials at zero is exact. -/
theorem IsFormOf.isExact_driveOut_zero (h : t.IsFormOf p) (hlevel : t.ArtificialsAtMost 0) :
    ∀ d ∈ t.driveOut 0 rows, d.IsExact := by
  refine driveOut_induction 0 (motive := fun t _ pass => t.IsFormOf p →
    t.ArtificialsAtMost 0 → ∀ d ∈ pass, d.IsExact) ?_ ?_ ?_ ?_ t rows h hlevel
  · simp
  · exact fun _ _ _ _ _ ih => ih
  · intro t row rest pass r hr hart hnone ih h hlevel
    refine List.forall_mem_cons.mpr ⟨⟨fun _ _ hne => absurd rfl hne, by simp, fun _ => ?_⟩,
      ih h hlevel⟩
    intro s hs _ j hj
    obtain rfl : r = s := Option.some.inj (hr.symm.trans hs)
    have hle := replacement?_none hnone le_rfl (h.solved.width r (List.mem_of_getElem? hr)) hj
    exact abs_nonpos_iff.mp hle
  · intro t row rest pass r col hr hart hsome ih h hlevel
    obtain ⟨hcol, hgt⟩ := replacement?_some hsome
    have hne : r.entry col ≠ 0 := abs_pos.mp hgt
    have hmem := List.mem_of_getElem? hr
    have hz : r.solution = 0 := le_antisymm (hlevel r hmem hart) (h.feasible r hmem)
    refine List.forall_mem_cons.mpr ⟨⟨fun s hs _ => ?_, fun col' hcol' => ?_, by simp⟩,
      ih (h.exchange hr hne hz) (hlevel.exchange h.solved hr hne hz hcol)⟩
    · obtain rfl : r = s := Option.some.inj (hr.symm.trans hs)
      exact hz
    · obtain rfl := Option.some.inj hcol'
      rfl

end Tableau

end LinearProgram
