import LinearProgram.Proofs.Corners
import LinearProgram.Proofs.CornerTrace
import LinearProgram.Proofs.Json.Events

/-! # The numbers of an answer by corners

What the answer and its trace hold is taken from the problem, or computed at a candidate point: its
coordinates, the left sides of the rows and the value of the objective.
-/

namespace LinearProgram

variable {P : Float → Prop}

/-- Every double of an event has the property, and its natural numbers fit into their fields. -/
structure Event.All (P : Float → Prop) (e : Event Float) : Prop where
  floats : ∀ x ∈ Event.codec.floats e, P x
  fits : Event.codec.fits e = true

def Point.All (P : Float → Prop) (q : Point Float) : Prop := ∀ x ∈ q.coords, P x

def Constraint.All (P : Float → Prop) (c : Constraint Float) : Prop :=
  (∀ x ∈ c.coefficients, P x) ∧ P c.bound

/-- Every number of a problem has the property. -/
structure Problem.All (P : Float → Prop) (p : Problem Float) : Prop where
  objective : ∀ x ∈ p.objective.coefficients, P x
  constraints : ∀ c ∈ p.constraints, c.All P

/-- Every number that is computed at a point has the property. -/
structure Problem.AllAt (P : Float → Prop) (p : Problem Float) (q : Point Float) : Prop where
  point : q.All P
  lhs : ∀ c ∈ p.constraints, P (c.lhs q.coords)
  value : P (p.objective.evaluate q.coords)

namespace Event

variable {q existing : Point Float}

theorem all_objective {coefficients : List Float} (h : ∀ x ∈ coefficients, P x) (sense : Sense)
    (names : List String) : (objective sense coefficients names).All P := by
  constructor
  · change ∀ x ∈ coefficients.flatMap (fun x => [x]) ++ (names.flatMap (fun _ => []) ++ []), P x
    simpa using h
  · change (true && (coefficients.all (fun _ => true) &&
      (names.all (fun _ => true) && true))) = true
    simp

theorem all_constraintList {constraints : List (Constraint Float)} (h : ∀ c ∈ constraints, c.All P)
    (names : List String) : (constraintList constraints names).All P := by
  constructor
  · change ∀ x ∈ constraints.flatMap (fun c => c.coefficients.flatMap (fun x => [x]) ++ ([] ++
      ([c.bound] ++ []))) ++ (names.flatMap (fun _ => []) ++ []), P x
    intro x hx
    simp only [List.nil_append, List.append_nil, List.mem_append, List.mem_flatMap, List.mem_cons,
      List.not_mem_nil, or_false, and_false, exists_const, exists_eq_right'] at hx
    obtain ⟨c, hc, hx | rfl⟩ := hx
    · exact (h c hc).1 x hx
    · exact (h c hc).2
  · change (constraints.all (fun c => c.coefficients.all (fun _ => true) && (true && (true &&
      true))) && (names.all (fun _ => true) && true)) = true
    simp

theorem all_degenerateConstraint {bound : Float} (h : P bound) (label : String)
    (relation : Relation) (alwaysSatisfied : Bool) :
    (degenerateConstraint label relation bound alwaysSatisfied).All P := by
  refine ⟨?_, rfl⟩
  change ∀ x ∈ [] ++ ([] ++ ([bound] ++ ([] ++ []))), P x
  simpa using h

theorem all_feasibilityCheck {checks : List (Check Float)} (hq : q.All P)
    (hchecks : ∀ c ∈ checks, P c.lhs ∧ P c.bound) (feasible : Bool) :
    (feasibilityCheck q checks feasible).All P := by
  constructor
  · change ∀ x ∈ q.coords.flatMap (fun x => [x]) ++ (checks.flatMap (fun c => [] ++ ([c.lhs] ++
      ([] ++ ([c.bound] ++ ([] ++ []))))) ++ ([] ++ [])), P x
    intro x hx
    simp only [List.nil_append, List.append_nil, List.mem_append, List.mem_flatMap, List.mem_cons,
      List.not_mem_nil, or_false, exists_eq_right', List.cons_append] at hx
    obtain hx | ⟨c, hc, rfl | rfl⟩ := hx
    · exact hq x hx
    · exact (hchecks c hc).1
    · exact (hchecks c hc).2
  · change (true && (checks.all (fun _ => true) && (true && true))) = true
    simp

theorem all_duplicateVertex (hq : q.All P) (hexisting : existing.All P) :
    (duplicateVertex q existing).All P := by
  refine ⟨?_, rfl⟩
  change ∀ x ∈ q.coords.flatMap (fun x => [x]) ++
    (existing.coords.flatMap (fun x => [x]) ++ []), P x
  simpa [or_imp, forall_and] using ⟨hq, hexisting⟩

theorem all_vertexEvaluation {value : Float} (hq : q.All P) (hvalue : P value) :
    (vertexEvaluation q value).All P := by
  refine ⟨?_, rfl⟩
  change ∀ x ∈ q.coords.flatMap (fun x => [x]) ++ ([value] ++ []), P x
  simpa [or_imp, forall_and] using ⟨hq, hvalue⟩

theorem all_optimumSelected {value : Float} {points : List (Point Float)} (hvalue : P value)
    (hpoints : ∀ q ∈ points, q.All P) (sense : Sense) (solutionType : Multiplicity) :
    (optimumSelected sense value points solutionType).All P := by
  constructor
  · change ∀ x ∈ [] ++ ([value] ++ (points.flatMap (fun q => q.coords.flatMap (fun x => [x])) ++
      ([] ++ []))), P x
    intro x hx
    simp only [List.nil_append, List.append_nil, List.mem_flatMap, List.mem_cons, List.not_mem_nil,
      or_false, exists_eq_right', List.cons_append] at hx
    obtain rfl | ⟨q, hq, hx⟩ := hx
    · exact hvalue
    · exact hpoints q hq x hx
  · change (true && (true && (points.all (fun _ => true) && (true && true)))) = true
    simp

theorem all_infeasible (reason : String) : (infeasible reason).All P := by
  refine ⟨?_, rfl⟩
  change ∀ x ∈ [] ++ [], P x
  simp

end Event

theorem Crossing.all_event {c : Crossing Float} (h : ∀ q ∈ c.point, q.All P) : c.event.All P := by
  rw [event]
  cases hpoint : c.point with
  | none =>
    refine ⟨?_, rfl⟩
    change ∀ x ∈ ([c.first, c.second].flatMap fun _ => []) ++ [], P x
    simp
  | some q =>
    refine ⟨?_, rfl⟩
    change ∀ x ∈ ([c.first, c.second].flatMap fun _ => []) ++
      (q.coords.flatMap (fun x => [x]) ++ []), P x
    simpa [Point.All] using h q hpoint

theorem CornerResponse.floats_eq (r : CornerResponse) : CornerResponse.codec.floats r =
    r.vertices.flatMap (fun q => q.coords.flatMap fun x => [x]) ++
      (r.objectiveValues.flatMap (fun v => [v]) ++ (r.optimalValue.elim [] (fun v => [v]) ++
        (r.optimalPoints.flatMap (fun q => q.coords.flatMap fun x => [x]) ++
          (r.solutionType.elim [] (fun _ => []) ++
            (r.trace.flatMap Event.codec.floats ++ []))))) :=
  rfl

/-- The numbers of an answer are those of its vertices, of its optimum and of its trace. -/
theorem CornerResponse.all_of_parts {r : CornerResponse} (hvertices : ∀ q ∈ r.vertices, q.All P)
    (hvalues : ∀ v ∈ r.objectiveValues, P v) (hbest : ∀ v ∈ r.optimalValue, P v)
    (hpoints : ∀ q ∈ r.optimalPoints, q.All P) (htrace : ∀ e ∈ r.trace, e.All P) :
    (∀ x ∈ CornerResponse.codec.floats r, P x) ∧ CornerResponse.codec.fits r = true := by
  have hfits : CornerResponse.codec.fits r = (true && (r.vertices.all (fun _ => true) &&
      (r.objectiveValues.all (fun _ => true) && (r.optimalValue.all (fun _ => true) &&
        (r.optimalPoints.all (fun _ => true) && (r.solutionType.all (fun _ => true) &&
          (r.trace.all Event.codec.fits && true))))))) := rfl
  rw [floats_eq, hfits]
  refine ⟨fun x hx => ?_, by simpa using fun e he => (htrace e he).fits⟩
  simp only [List.mem_append, List.mem_flatMap, List.mem_cons, List.not_mem_nil, or_false,
    exists_eq_right', List.append_nil] at hx
  obtain ⟨q, hq, hx⟩ | hx | hx | ⟨q, hq, hx⟩ | hx | ⟨e, he, hx⟩ := hx
  · exact hvertices q hq x hx
  · exact hvalues x hx
  · cases hvalue : r.optimalValue with
    | none => simp [hvalue] at hx
    | some v =>
      obtain rfl : x = v := by simpa [hvalue] using hx
      exact hbest x hvalue
  · exact hpoints q hq x hx
  · cases htype : r.solutionType <;> simp [htype] at hx
  · exact (htrace e he).floats x hx

/-- A corner is a crossing that meets every check. -/
theorem Problem.mem_of_mem_corners {α : Type} [Scalar α] {tolerance : α} {p : Problem α}
    {q : Point α} (hq : q ∈ (p.survey tolerance).corners) :
    q ∈ (crossings tolerance (p.boundaryLines tolerance)).filterMap (·.point) ∧
      (p.checksAt tolerance q).all (·.satisfied) = true := by
  obtain ⟨c, hc, hcorner⟩ := List.mem_filterMap.mp hq
  have hverdict : c.point = q ∧ c.verdict = .corner := by
    rw [Candidate.corner?] at hcorner
    cases hverdict : c.verdict <;> simp_all
  obtain ⟨rfl, hverdict⟩ := hverdict
  refine ⟨?_, ?_⟩
  · have hmap := List.mem_map_of_mem (f := fun c : Candidate α => c.point) hc
    rwa [survey, map_point_sift] at hmap
  · obtain ⟨hchecks, hrejected⟩ := checks_of_mem_sift c hc
    rw [hverdict, hchecks] at hrejected
    simpa using hrejected

namespace Problem

variable {p : Problem Float} {tolerance : Float} {q : Point Float}
  {seen points : List (Point Float)}

theorem all_of_mem_checksAt (h0 : P 0) (hp : p.All P) (hq : p.AllAt P q) :
    ∀ c ∈ p.checksAt tolerance q, P c.lhs ∧ P c.bound := by
  rw [checksAt]
  simp only [List.forall_mem_cons, List.forall_mem_map]
  refine ⟨⟨hq.point _ (by simp [Point.coords]), h0⟩, ⟨hq.point _ (by simp [Point.coords]), h0⟩, ?_⟩
  rintro ⟨c, i⟩ hc
  have hmem : c ∈ p.constraints := List.mem_of_getElem? (List.mem_zipIdx_iff_getElem?.mp hc)
  exact ⟨hq.lhs c hmem, (hp.constraints c hmem).2⟩

/-- A duplicate is close to a point that was seen or is a candidate itself. -/
theorem existing_mem_sift : ∀ c ∈ p.sift tolerance seen points, ∀ existing,
    c.verdict = .duplicate existing → existing ∈ seen ∨ existing ∈ points := by
  fun_induction p.sift tolerance seen points with
  | case1 seen => simp
  | case2 seen point rest checks hall corner hfind ih =>
    refine List.forall_mem_cons.mpr ⟨?_, fun c hc existing h => ?_⟩
    · rintro existing ⟨⟩
      exact .inl (List.mem_of_find?_eq_some hfind)
    · exact (ih c hc existing h).imp_right (List.mem_cons_of_mem point)
  | case3 seen point rest checks hall hfind ih =>
    refine List.forall_mem_cons.mpr ⟨by simp, fun c hc existing h => ?_⟩
    have hmem := ih c hc existing h
    rw [List.mem_append, List.mem_singleton] at hmem
    rw [List.mem_cons]
    exact or_assoc.mp hmem
  | case4 seen point rest checks hall ih =>
    refine List.forall_mem_cons.mpr ⟨by simp, fun c hc existing h => ?_⟩
    exact (ih c hc existing h).imp_right (List.mem_cons_of_mem point)

section Answer

variable (h0 : P 0) (hp : p.All P)

include h0 hp

theorem all_events_sift (hpoints : ∀ q ∈ points, p.AllAt P q) :
    ∀ e ∈ (p.sift tolerance [] points).flatMap Candidate.events, e.All P := by
  intro e he
  obtain ⟨c, hc, he⟩ := List.mem_flatMap.mp he
  have hmem : c.point ∈ points := by
    have hmap := List.mem_map_of_mem (f := fun c : Candidate Float => c.point) hc
    rwa [map_point_sift] at hmap
  have hq := hpoints c.point hmem
  have hchecks := @all_of_mem_checksAt _ p tolerance _ h0 hp hq
  rw [← (checks_of_mem_sift c hc).1] at hchecks
  have hcheck := fun feasible => Event.all_feasibilityCheck hq.point hchecks feasible
  rw [Candidate.events] at he
  cases hverdict : c.verdict with
  | rejected =>
    rw [hverdict] at he
    obtain rfl := List.mem_singleton.mp he
    exact hcheck _
  | duplicate existing =>
    rw [hverdict] at he
    have hexisting := (existing_mem_sift c hc existing hverdict).resolve_left List.not_mem_nil
    obtain rfl | he := List.mem_cons.mp he
    · exact hcheck _
    · obtain rfl := List.mem_singleton.mp he
      exact Event.all_duplicateVertex hq.point (hpoints existing hexisting).point
  | corner =>
    rw [hverdict] at he
    obtain rfl := List.mem_singleton.mp he
    exact hcheck _

omit h0 in
theorem all_opening (names : List String) :
    ∀ e ∈ p.statement names ++ p.degenerateRows tolerance, e.All P := by
  rw [List.forall_mem_append, statement, degenerateRows]
  refine ⟨?_, fun e he => ?_⟩
  · rw [List.forall_mem_cons, List.forall_mem_singleton]
    exact ⟨Event.all_objective hp.objective _ _, Event.all_constraintList hp.constraints _⟩
  · obtain ⟨⟨c, i⟩, hc, heq⟩ := List.mem_filterMap.mp he
    obtain ⟨-, rfl⟩ : _ ∧ _ = e := by simpa using heq
    have hmem : c ∈ p.constraints := List.mem_of_getElem? (List.mem_zipIdx_iff_getElem?.mp hc)
    exact Event.all_degenerateConstraint (hp.constraints c hmem).2 _ _ _

variable (hpoints : ∀ q ∈ (crossings tolerance (p.boundaryLines tolerance)).filterMap (·.point),
  p.AllAt P q)

include hpoints

omit h0 hp in
theorem all_vertices :
    ∀ v ∈ (p.survey tolerance).vertices p.objective, v.point.All P ∧ P v.value := by
  rw [Survey.vertices, List.forall_mem_map]
  intro q hq
  have hat := hpoints q (mem_of_mem_corners hq).1
  exact ⟨hat.point, hat.value⟩

theorem all_survey : ∀ e ∈ (p.survey tolerance).events, e.All P := by
  rw [Survey.events, List.forall_mem_append, List.forall_mem_map]
  refine ⟨fun c hc => c.all_event fun q hq => ?_, all_events_sift h0 hp hpoints⟩
  exact (hpoints q (List.mem_filterMap.mpr ⟨c, hc, hq⟩)).point

/-- Every number of an answer and of its trace is one of the problem, or computed at a candidate. -/
theorem all_optimum :
    (∀ x ∈ CornerResponse.codec.floats
      (.ofSolution (p.optimum tolerance (p.survey tolerance))), P x) ∧
    CornerResponse.codec.fits (.ofSolution (p.optimum tolerance (p.survey tolerance))) = true := by
  have hvertices := all_vertices hpoints
  have hbegun : ∀ e ∈ p.statement (variableNames 2) ++ p.degenerateRows tolerance ++
      (p.survey tolerance).events, e.All P := by
    exact List.forall_mem_append.mpr ⟨all_opening hp _, all_survey h0 hp hpoints⟩
  rw [optimum]
  cases hbest : p.objective.best ((p.survey tolerance).vertices p.objective) with
  | none =>
    refine CornerResponse.all_of_parts ?_ ?_ ?_ ?_ ?_
    iterate 4 simp [CornerResponse.ofSolution]
    exact List.forall_mem_append.mpr
      ⟨hbegun, List.forall_mem_singleton.mpr (Event.all_infeasible _)⟩
  | some best =>
    obtain ⟨w, hw, rfl⟩ := Objective.exists_of_best hbest
    have hwinners : ∀ q ∈ (((p.survey tolerance).vertices p.objective).filter fun v =>
        Scalar.approxEq tolerance v.value w.value).map (·.point), q.All P := by
      rw [List.forall_mem_map]
      exact fun v hv => (hvertices v (List.mem_of_mem_filter hv)).1
    refine CornerResponse.all_of_parts ?_ ?_ ?_ ?_ ?_
    · exact List.forall_mem_map.mpr fun v hv => (hvertices v hv).1
    · exact List.forall_mem_map.mpr fun v hv => (hvertices v hv).2
    · rintro v ⟨⟩
      exact (hvertices w hw).2
    · exact hwinners
    · refine List.forall_mem_append.mpr ⟨List.forall_mem_append.mpr ⟨hbegun, ?_⟩, ?_⟩
      · exact List.forall_mem_map.mpr fun v hv =>
          Event.all_vertexEvaluation (hvertices v hv).1 (hvertices v hv).2
      · exact List.forall_mem_singleton.mpr
          (Event.all_optimumSelected (hvertices w hw).2 hwinners _ _)

end Answer

end Problem

end LinearProgram
