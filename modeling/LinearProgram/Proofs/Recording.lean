import LinearProgram.Proofs.Course
import LinearProgram.Proofs.Stage

/-! # What a solve records

A solve keeps snapshots of the tableaus that its stages start from and pivot to, and of those in
which an artificial has been driven out. It keeps no others, and keeps them in this order.
-/

namespace LinearProgram

/-- A tableau and the phase in which it is recorded. -/
structure Frame (α : Type) where
  phase : Option Nat
  tableau : Tableau α

variable {α : Type}

/-- The phase and the grid. -/
def Snapshot.view (snapshot : Snapshot α) : Option Nat × List (List α) :=
  (snapshot.phase, snapshot.grid)

def Record.views (r : Record α) : List (Option Nat × List (List α)) :=
  r.tableaus.map Snapshot.view

def SimplexRun.views (run : SimplexRun α) : List (Option Nat × List (List α)) :=
  run.solution.tableaus.map Snapshot.view

def PhaseOne.record : PhaseOne α → Record α
  | stopped _ r => r
  | feasible _ r => r

/-- The tableaus in which an artificial has just been replaced. -/
def DriveOut.frames (pass : List (DriveOut α)) : List (Frame α) :=
  (pass.filter fun d => d.column.isSome).map fun d => ⟨some 1, d.after⟩

namespace Record

@[simp] theorem views_note (r : Record α) (e : Event α) : (r.note e).views = r.views := rfl

@[simp] theorem views_write (r : Record α) (e : Log.Entry α) : (r.write e).views = r.views := rfl

@[simp] theorem views_keep (r : Record α) (snapshot : Snapshot α) :
    (r.keep snapshot).views = r.views ++ [snapshot.view] := by
  simp [views, keep]

@[simp] theorem views_stop (r : Record α) (status : Status) : (r.stop status).views = r.views := rfl

end Record

variable [Scalar α]

/-- What a snapshot of the tableau shows. -/
def Frame.view (f : Frame α) : Option Nat × List (List α) :=
  (f.phase, f.tableau.grid.map (·.map Scalar.unsignedZero))

/-- The tableaus that a stage goes through. -/
def Leg.frames (phase : Option Nat) (leg : Leg α) : List (Frame α) :=
  ⟨phase, leg.start⟩ :: leg.stage.pivots.map fun d => ⟨phase, d.after⟩

/-- A stage ends at the last of its tableaus. -/
theorem Leg.getLast?_frames (phase : Option Nat) (leg : Leg α) :
    (leg.frames phase).getLast? = some ⟨phase, leg.stage.final⟩ := by
  have h := congrArg (Option.map fun t => Frame.mk phase t)
    (leg.goal.getLast?_run leg.budget leg.start)
  rw [← List.getLast?_map, List.map_cons, List.map_map] at h
  exact h

namespace SimplexSettings

/-- The tableaus of both phases after some pivots. -/
def bothPhasesFrames (s : SimplexSettings α) (p : Problem α) (used : Nat) : List (Frame α) :=
  (s.phaseOneLeg p used).frames (some 1) ++
    match s.phaseOneStatus p used with
    | some _ => []
    | none => DriveOut.frames (s.driveOutPass p used) ++ (s.secondLeg p used).frames (some 2)

/-- The phase under which a solve without both phases is recorded. -/
def directPhase (s : SimplexSettings α) : Option Nat :=
  match s.discipline with
  | .bigM => none
  | .twoPhase => some 2

/-- The tableaus of a penalty stage that is rechecked. -/
def recheckedFrames (s : SimplexSettings α) (p : Problem α) : List (Frame α) :=
  match s.discipline with
  | .bigM => (s.penaltyLeg p).frames none
  | .twoPhase => []

/-- The tableaus that a solve goes through. -/
def frames (s : SimplexSettings α) (p : Problem α) : List (Frame α) :=
  match s.bothPhasesFrom? p with
  | some used => s.recheckedFrames p ++ s.bothPhasesFrames p used
  | none => (s.directLeg p).frames s.directPhase

/-- The phase under which the last stage is recorded. -/
def lastPhase (s : SimplexSettings α) (p : Problem α) : Option Nat :=
  match s.bothPhasesFrom? p with
  | some used => some (if (s.phaseOneStatus p used).isSome then 1 else 2)
  | none => s.directPhase

/-- A solve ends at the last of its tableaus. -/
theorem getLast?_frames (s : SimplexSettings α) (p : Problem α) :
    (s.frames p).getLast? = some ⟨s.lastPhase p, (s.lastLeg p).stage.final⟩ := by
  rw [frames, lastPhase]
  cases hfrom : s.bothPhasesFrom? p with
  | some used =>
    cases hstatus : s.phaseOneStatus p used with
    | some status =>
      simp [bothPhasesFrames, hstatus, List.getLast?_append, Leg.getLast?_frames,
        lastLeg_of_stopped hfrom hstatus]
    | none =>
      simp [bothPhasesFrames, hstatus, List.getLast?_append, Leg.getLast?_frames,
        lastLeg_of_feasible hfrom hstatus]
  | none =>
    simp only [lastLeg_of_direct hfrom]
    exact Leg.getLast?_frames ..

end SimplexSettings

namespace Record

@[simp] theorem views_openStage (phase : Option Nat) (description : String) (t : Tableau α)
    (r : Record α) :
    (r.openStage phase description t).views = r.views ++ [Frame.view ⟨phase, t⟩] := by
  rw [openStage, views_note, views_keep]
  rfl

@[simp] theorem views_close (limit : Nat) (stage : Stage α) (r : Record α) :
    (r.close limit stage).views = r.views := by
  rw [close]
  split <;> rfl

theorem views_foldl_addPivot (phase : Option Nat) (pivots : List (Pivot α)) (r : Record α) :
    (pivots.foldl (addPivot phase) r).views =
      r.views ++ pivots.map fun d => Frame.view ⟨phase, d.after⟩ := by
  induction pivots generalizing r with
  | nil => simp
  | cons d pivots ih =>
    have hd : (r.addPivot phase d).views = r.views ++ [Frame.view ⟨phase, d.after⟩] := by
      simp only [views, addPivot, List.map_append, List.map_cons, List.map_nil]
      rfl
    rw [List.foldl_cons, ih, hd, List.append_assoc, List.map_cons, List.singleton_append]

theorem views_foldl_addDriveOut (pass : List (DriveOut α)) (r : Record α) :
    (pass.foldl addDriveOut r).views = r.views ++ (DriveOut.frames pass).map Frame.view := by
  induction pass generalizing r with
  | nil => simp [DriveOut.frames]
  | cons d pass ih =>
    rw [List.foldl_cons, ih]
    cases hd : d.column with
    | none => simp [addDriveOut, DriveOut.frames, hd]
    | some col =>
      have hview : (d.snapshot r.iterations col).view = Frame.view ⟨some 1, d.after⟩ := rfl
      simp [addDriveOut, DriveOut.frames, hd, hview]

/-- A stage adds the tableaus that it goes through. -/
@[simp] theorem views_stage (phase : Option Nat) (description : String) (limit : Nat)
    (leg : Leg α) (r : Record α) :
    ((r.openStage phase description leg.start).addStage phase limit leg.stage).views =
      r.views ++ (leg.frames phase).map Frame.view := by
  rw [addStage, views_close, views_foldl_addPivot, views_openStage, Leg.frames, List.map_cons,
    List.map_map, List.append_assoc, List.singleton_append]
  rfl

@[simp] theorem views_finish (tolerance : α) (p : Problem α) (t : Tableau α) (r : Record α) :
    (r.finish tolerance p t).views = r.views := rfl

end Record

namespace SimplexSettings

variable (s : SimplexSettings α) (p : Problem α) (r : Record α)

theorem views_phaseOne : (s.phaseOne p r).record.views =
    r.views ++ ((s.phaseOneLeg p r.iterations).frames (some 1) ++
      match s.phaseOneStatus p r.iterations with
      | some _ => []
      | none => DriveOut.frames (s.driveOutPass p r.iterations)).map Frame.view := by
  simp only [phaseOne, phaseOneStatus, driveOutPass]
  cases h : (s.phaseOneLeg p r.iterations).stage.ending with
  | unbounded column ratios => simp [PhaseOne.record]
  | outOfPivots => simp [PhaseOne.record]
  | optimal =>
    simp only
    split
    · simp [PhaseOne.record]
    · simp [PhaseOne.record, Record.views_foldl_addDriveOut]

theorem views_phaseTwo (t : Tableau α) : (s.phaseTwo p t r).views =
    r.views ++ ((s.phaseTwoLeg p t r.iterations).frames (some 2)).map Frame.view := by
  simp only [phaseTwo]
  cases (s.phaseTwoLeg p t r.iterations).stage.ending <;> simp

theorem views_bothPhases : (s.bothPhases p r).views =
    r.views ++ (s.bothPhasesFrames p r.iterations).map Frame.view := by
  have hviews := views_phaseOne s p r
  obtain ⟨r', hr', h⟩ := phaseOne_eq s p r
  rw [h] at hviews
  rw [bothPhases, h, bothPhasesFrames]
  cases hstatus : s.phaseOneStatus p r.iterations with
  | some status =>
    simp only [hstatus, PhaseOne.record] at hviews
    rw [Record.views_stop, hviews]
  | none =>
    simp only [hstatus, PhaseOne.record] at hviews
    simp only
    rw [views_phaseTwo, Record.views_note, hviews, Record.iterations_note, hr', secondLeg,
      List.append_assoc, ← List.map_append, List.append_assoc]

theorem views_penalized (hr : r.iterations = 0) : (s.penalized p r).views =
    r.views ++ ((s.penaltyLeg p).frames none ++
      if s.isRechecked p then s.bothPhasesFrames p (s.penaltyLeg p).stage.pivots.length
      else []).map Frame.view := by
  simp only [penalized]
  split
  · next h =>
    rw [if_neg fun hre => ((s.isRechecked_iff p).mp hre).1 h]
    simp
  · next row h hne =>
    rw [views_bothPhases, if_pos ((s.isRechecked_iff p).mpr ⟨hne, by rw [h]; rfl⟩)]
    simp [hr]
  · next h h' =>
    rw [if_neg fun hre => by simpa [h'] using ((s.isRechecked_iff p).mp hre).2]
    simp
  · next h h' =>
    rw [if_neg fun hre => by simpa [h'] using ((s.isRechecked_iff p).mp hre).2]
    simp

/-- The snapshots show the tableaus that the solve goes through. -/
theorem views_run : (s.run p).views = (s.frames p).map Frame.view := by
  rw [run, frames, bothPhasesFrom?, recheckedFrames, directLeg, directPhase]
  cases s.discipline with
  | bigM =>
    simp only
    rw [views_penalized s p _ rfl]
    split <;> simp [Record.views, opening]
  | twoPhase =>
    simp only
    split
    · rw [views_bothPhases]
      simp [Record.views, opening]
    · rw [views_phaseTwo]
      simp [Record.views, opening]

variable {s p}

/-- Every snapshot shows a tableau of the solve. -/
theorem exists_frame_of_mem {snapshot : Snapshot α} (h : snapshot ∈ (s.run p).solution.tableaus) :
    ∃ f ∈ s.frames p, snapshot.view = f.view := by
  have hmem : snapshot.view ∈ (s.run p).views := List.mem_map_of_mem h
  rw [views_run] at hmem
  obtain ⟨f, hf, hview⟩ := List.mem_map.mp hmem
  exact ⟨f, hf, hview.symm⟩

/-- The last snapshot shows the last tableau. -/
theorem exists_getLast?_tableaus {f : Frame α} (h : (s.frames p).getLast? = some f) :
    ∃ snapshot, (s.run p).solution.tableaus.getLast? = some snapshot ∧ snapshot.view = f.view := by
  have hlast : (s.run p).views.getLast? = some f.view := by
    rw [views_run, List.getLast?_map, h, Option.map_some]
  rw [SimplexRun.views, List.getLast?_map] at hlast
  exact Option.map_eq_some_iff.mp hlast

end SimplexSettings

end LinearProgram
