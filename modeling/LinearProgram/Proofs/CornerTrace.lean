import LinearProgram.Proofs.Corners
import LinearProgram.Proofs.TracePrefix
import Mathlib.Data.List.ProdSigma

/-! # What the trace of corner enumeration accounts for

The trace of a solve by corners names every pair of boundary lines once, checks every point at which
two of them cross, and tells what becomes of each: it is infeasible, or a vertex, or a duplicate of
an earlier vertex. The vertices are those that the trace admits, and it evaluates each of them.
-/

namespace LinearProgram

variable {α : Type}

namespace Event

/-- The two lines whose crossing is reported. -/
def lines? : Event α → Option (String × String)
  | .intersection first second _ => some (first, second)
  | .parallelLines first second => some (first, second)
  | _ => none

def intersection? : Event α → Option (Point α)
  | .intersection _ _ point => some point
  | _ => none

def checked? : Event α → Option (Point α)
  | .feasibilityCheck point _ _ => some point
  | _ => none

def evaluation? : Event α → Option (Vertex α)
  | .vertexEvaluation point value => some ⟨point, value⟩
  | _ => none

def feasible? : Event α → Option (Point α)
  | .feasibilityCheck point _ true => some point
  | _ => none

def isDuplicate : Event α → Bool
  | .duplicateVertex .. => true
  | _ => false

/-- Events about neither a pair of lines nor a point. -/
def IsAside : Event α → Prop
  | .objective .. | .constraintList .. | .degenerateConstraint .. | .infeasible _ => True
  | .optimumSelected .. => True
  | _ => False

end Event

namespace Trace

/-- The points that are found feasible and that the next event does not report as duplicates. -/
def admitted : Trace α → List (Point α)
  | [] => []
  | e :: rest =>
    (if rest.head?.any Event.isDuplicate then none else e.feasible?).toList ++ admitted rest

end Trace

/-- The pairs of positions in a list, the smaller position first, in lexicographic order. -/
def positionPairs (n : ℕ) : List (Fin n × Fin n) :=
  (List.finRange n ×ˢ List.finRange n).filter fun ij => ij.1 < ij.2

theorem pairs_eq_map {β : Type} (l : List β) :
    pairs l = (positionPairs l.length).map fun ij => (l[ij.1], l[ij.2]) := by
  induction l with
  | nil => rfl
  | cons x rest ih =>
    have hfirst : rest.map (x, ·) = (List.finRange rest.length).map fun j => (x, rest[j]) := by
      conv_lhs => rw [← List.map_getElem_finRange rest]
      rw [List.map_map]
      rfl
    simp only [pairs, ih, positionPairs, List.length_cons, List.finRange_succ, List.product_cons,
      List.filter_append, List.map_append, hfirst]
    congr 1
    · simp [List.filter_map, Function.comp_def]
    · simp [SProd.sprod, List.product, List.flatMap_map, List.filter_flatMap, List.filter_map,
        List.map_flatMap, Function.comp_def]

variable [Scalar α]

/-- The rows that are not degenerate, then both axes. -/
def Problem.lineLabels (tolerance : α) (p : Problem α) : List String :=
  (p.constraints.zipIdx.filterMap fun (c, i) =>
    if c.isDegenerate tolerance then none else some (rowLabel i)) ++ ["x = 0", "y = 0"]

/-- The trace accounts for every pair of lines, every candidate and every vertex. -/
structure CornerSolution.IsAccountedFor (tolerance : α) (p : Problem α)
    (solution : CornerSolution α) : Prop where
  /-- Every pair of lines is reported once, in order. -/
  lines_eq : solution.trace.filterMap Event.lines? =
    (positionPairs (p.lineLabels tolerance).length).map fun ij =>
      ((p.lineLabels tolerance)[ij.1], (p.lineLabels tolerance)[ij.2])
  /-- The candidates are checked in order. -/
  checked_eq : solution.trace.filterMap Event.checked? =
    solution.trace.filterMap Event.intersection?
  /-- Every check covers both signs and all rows, degenerate ones among them. -/
  checks : ∀ point checks feasible, .feasibilityCheck point checks feasible ∈ solution.trace →
    checks.map (fun c => (c.label, c.lhs, c.relation, c.bound)) =
      ("x", point.x, .ge, 0) :: ("y", point.y, .ge, 0) :: p.constraints.zipIdx.map
        (fun (c, i) => (rowLabel i, c.lhs point.coords, c.relation, c.bound)) ∧
    (∀ c ∈ checks, c.satisfied = c.relation.holds tolerance c.lhs c.bound) ∧
    feasible = checks.all (·.satisfied)
  /-- The vertices are the feasible candidates that are not reported as duplicates. -/
  vertices_eq : solution.vertices.map (·.point) = Trace.admitted solution.trace
  /-- A duplicate is reported directly behind its check, together with an earlier vertex that is
  close to it. -/
  duplicates : ∀ before point existing,
    before ++ [.duplicateVertex point existing] <+: solution.trace →
      ∃ earlier checks, before = earlier ++ [.feasibilityCheck point checks true] ∧
        existing ∈ Trace.admitted earlier ∧ existing.approxEq tolerance point = true
  /-- No vertex is close to an earlier one. -/
  apart : (solution.vertices.map (·.point)).Pairwise fun earlier later =>
    earlier.approxEq tolerance later = false
  /-- The vertices are evaluated in order. -/
  evaluations_eq : solution.trace.filterMap Event.evaluation? = solution.vertices
  values : ∀ v ∈ solution.vertices, v.value = p.objective.evaluate v.point.coords

section Admitted

omit [Scalar α]

variable {l m : Trace α}

theorem Trace.admitted_append (h : m.head?.any Event.isDuplicate = false) :
    Trace.admitted (l ++ m) = Trace.admitted l ++ Trace.admitted m := by
  induction l with
  | nil => rfl
  | cons e l ih =>
    have hnext : (l ++ m).head?.any Event.isDuplicate = l.head?.any Event.isDuplicate := by
      cases l with
      | nil => exact h
      | cons => rfl
    rw [List.cons_append, Trace.admitted, ih, hnext, Trace.admitted, List.append_assoc]

theorem Trace.admitted_append_of_feasible? (h : ∀ e ∈ l, e.feasible? = none) :
    Trace.admitted (l ++ m) = Trace.admitted m := by
  induction l with
  | nil => rfl
  | cons e l ih =>
    obtain ⟨he, hl⟩ := List.forall_mem_cons.mp h
    rw [List.cons_append, Trace.admitted, he, ih hl, ite_self]
    rfl

theorem Trace.head?_any_eq_false (h : ∀ e ∈ l, e.isDuplicate = false) :
    l.head?.any Event.isDuplicate = false := by
  cases l with
  | nil => rfl
  | cons e l => exact h e List.mem_cons_self

theorem Trace.not_mem_of_isDuplicate {d : Event α} (hd : d.isDuplicate = true)
    (h : ∀ e ∈ l, e.isDuplicate = false) : d ∉ l := by
  intro hmem
  rw [h d hmem] at hd
  cases hd

theorem Trace.head?_any_of_append {rest : Trace α} (h : l ++ m <+: rest)
    (hrest : rest.head?.any Event.isDuplicate = false) :
    l.head?.any Event.isDuplicate = false := by
  cases l with
  | nil => rfl
  | cons e l =>
    obtain ⟨tail, rfl⟩ := h
    exact hrest

end Admitted

section Parts

omit [Scalar α]

theorem Event.IsAside.isSilent {e : Event α} (h : e.IsAside) : e.lines? = none ∧
    e.intersection? = none ∧ e.checked? = none ∧ e.feasible? = none ∧ e.evaluation? = none ∧
    e.isDuplicate = false := by
  cases e <;> first | exact h.elim | exact ⟨rfl, rfl, rfl, rfl, rfl, rfl⟩

/-- A crossing reports its lines, and the point that they share. -/
theorem Crossing.event_cases (c : Crossing α) : c.event.lines? = some (c.first, c.second) ∧
    c.event.intersection? = c.point ∧ c.event.checked? = none ∧ c.event.feasible? = none ∧
    c.event.evaluation? = none ∧ c.event.isDuplicate = false := by
  unfold event
  cases c.point <;> exact ⟨rfl, rfl, rfl, rfl, rfl, rfl⟩

theorem Event.vertexEvaluation_cases (point : Point α) (value : α) :
    (vertexEvaluation point value).lines? = none ∧
    (vertexEvaluation point value).intersection? = none ∧
    (vertexEvaluation point value).checked? = none ∧
    (vertexEvaluation point value).feasible? = none ∧
    (vertexEvaluation point value).evaluation? = some ⟨point, value⟩ ∧
    (vertexEvaluation point value).isDuplicate = false :=
  ⟨rfl, rfl, rfl, rfl, rfl, rfl⟩

/-- What is reported of a candidate begins with its check. -/
theorem Candidate.events_cases (c : Candidate α) : c.events.filterMap Event.lines? = [] ∧
    c.events.filterMap Event.intersection? = [] ∧ c.events.filterMap Event.checked? = [c.point] ∧
    c.events.filterMap Event.evaluation? = [] ∧
    ∃ e rest, c.events = e :: rest ∧ e.isDuplicate = false := by
  unfold events
  cases c.verdict <;> exact ⟨rfl, rfl, rfl, rfl, _, _, rfl, rfl⟩

/-- The trace of some candidates does not begin with a duplicate. -/
theorem Candidate.head?_flatMap_events (l : List (Candidate α)) :
    (l.flatMap Candidate.events).head?.any Event.isDuplicate = false := by
  cases l with
  | nil => rfl
  | cons c l =>
    obtain ⟨-, -, -, -, e, rest, hevents, he⟩ := c.events_cases
    simp [hevents, he]

theorem Candidate.admitted_events (c : Candidate α) :
    Trace.admitted c.events = c.corner?.toList := by
  unfold events corner?
  cases c.verdict <;> rfl

/-- Candidates become vertices if they are corners. -/
theorem Candidate.admitted_flatMap_events (l : List (Candidate α)) :
    Trace.admitted (l.flatMap Candidate.events) = l.filterMap Candidate.corner? := by
  induction l with
  | nil => rfl
  | cons c l ih =>
    rw [List.flatMap_cons, Trace.admitted_append (head?_flatMap_events l), admitted_events, ih,
      List.filterMap_cons]
    cases c.corner? <;> rfl

theorem pairs_map {β γ : Type} (f : β → γ) (l : List β) :
    pairs (l.map f) = (pairs l).map (Prod.map f f) := by
  induction l with
  | nil => rfl
  | cons x rest ih => simp [pairs, ih, Function.comp_def]

end Parts

theorem Problem.label_boundaryLines (tolerance : α) (p : Problem α) :
    (p.boundaryLines tolerance).map (·.label) = p.lineLabels tolerance := by
  rw [boundaryLines, lineLabels, List.map_append, List.map_filterMap]
  congr 1
  refine List.filterMap_congr ?_
  rintro ⟨c, i⟩ -
  by_cases hc : c.isDegenerate tolerance = true <;> simp [hc, Constraint.line]

/-- The trace of a solve: asides, the crossings, the candidates, the vertices, the verdict. -/
theorem Problem.exists_trace_optimum (tolerance : α) (p : Problem α) (s : Survey α) :
    ∃ asides last, (∀ e ∈ asides, e.IsAside) ∧ last.IsAside ∧
      (p.optimum tolerance s).trace = asides ++ (s.crossings.map Crossing.event ++
        (s.candidates.flatMap Candidate.events ++
          ((s.vertices p.objective).map (fun v => .vertexEvaluation v.point v.value) ++
            [last]))) := by
  have hasides : ∀ e ∈ p.statement (variableNames 2) ++ p.degenerateRows tolerance, e.IsAside := by
    rw [List.forall_mem_append, statement, degenerateRows]
    refine ⟨by simp [Event.IsAside], fun e he => ?_⟩
    obtain ⟨⟨c, i⟩, -, hc⟩ := List.mem_filterMap.mp he
    obtain ⟨-, rfl⟩ : _ ∧ _ = e := by simpa using hc
    trivial
  rw [optimum]
  cases hbest : p.objective.best (s.vertices p.objective) with
  | none =>
    have hnil : s.vertices p.objective = [] := Objective.best_eq_none_iff.mp hbest
    exact ⟨_, .infeasible _, hasides, trivial, by
      simp only [hnil, Survey.events, List.map_nil, List.append_assoc]; rfl⟩
  | some best =>
    exact ⟨_, .optimumSelected _ _ _ _, hasides, trivial, by
      simp only [Survey.events, List.append_assoc]; rfl⟩

section Sift

variable {tolerance : α} {p : Problem α} {seen points : List (Point α)}

theorem Problem.map_point_sift : (p.sift tolerance seen points).map (·.point) = points := by
  fun_induction p.sift tolerance seen points with
  | case1 seen => rfl
  | case2 seen point rest checks hall corner hfind ih => rw [List.map_cons, ih]
  | case3 seen point rest checks hall hfind ih => rw [List.map_cons, ih]
  | case4 seen point rest checks hall ih => rw [List.map_cons, ih]

/-- A candidate is rejected if it fails one of its checks. -/
theorem Problem.checks_of_mem_sift : ∀ c ∈ p.sift tolerance seen points,
    c.checks = p.checksAt tolerance c.point ∧
      (c.verdict = .rejected ↔ c.checks.all (·.satisfied) = false) := by
  fun_induction p.sift tolerance seen points with
  | case1 seen => simp
  | case2 seen point rest checks hall corner hfind ih =>
    exact List.forall_mem_cons.mpr ⟨⟨rfl, by simp [hall]⟩, ih⟩
  | case3 seen point rest checks hall hfind ih =>
    exact List.forall_mem_cons.mpr ⟨⟨rfl, by simp [hall]⟩, ih⟩
  | case4 seen point rest checks hall ih =>
    exact List.forall_mem_cons.mpr ⟨⟨rfl, by simp [hall]⟩, ih⟩

/-- A duplicate is reported behind its check, together with a vertex that was seen before. -/
theorem Problem.duplicates_sift {point existing : Point α} : ∀ before : Trace α,
    before ++ [.duplicateVertex point existing] <+:
      (p.sift tolerance seen points).flatMap Candidate.events →
    ∃ earlier checks, before = earlier ++ [.feasibilityCheck point checks true] ∧
      existing ∈ seen ++ Trace.admitted earlier ∧ existing.approxEq tolerance point = true := by
  fun_induction p.sift tolerance seen points with
  | case1 seen => simp
  | case2 seen q rest checks hall corner hfind ih =>
    intro before h
    obtain ⟨inner, rfl, hinner⟩ :=
      exists_append_of_not_mem (l := [Event.feasibilityCheck q checks true]) h (by simp)
    cases inner with
    | nil =>
      obtain ⟨rfl, rfl⟩ : point = q ∧ existing = corner := by simpa using hinner
      have hclose := List.find?_some hfind
      exact ⟨[], _, rfl, List.mem_append_left _ (List.mem_of_find?_eq_some hfind), hclose⟩
    | cons d inner =>
      obtain ⟨rfl, hstands⟩ := List.cons_prefix_cons.mp hinner
      obtain ⟨earlier, found, rfl, hmem, hclose⟩ := ih _ hstands
      refine ⟨.feasibilityCheck q checks true :: .duplicateVertex q corner :: earlier, found, rfl,
        ?_, hclose⟩
      simpa [Trace.admitted, Event.isDuplicate, Event.feasible?] using hmem
  | case3 seen q rest checks hall hfind ih =>
    intro before h
    obtain ⟨inner, rfl, hinner⟩ :=
      exists_append_of_not_mem (l := [Event.feasibilityCheck q checks true]) h (by simp)
    obtain ⟨earlier, found, rfl, hmem, hclose⟩ := ih _ hinner
    rw [List.append_assoc] at hinner
    have hhead := Trace.head?_any_of_append hinner (Candidate.head?_flatMap_events _)
    refine ⟨.feasibilityCheck q checks true :: earlier, found, rfl, ?_, hclose⟩
    rw [Trace.admitted, hhead]
    rwa [List.append_assoc] at hmem
  | case4 seen q rest checks hall ih =>
    intro before h
    obtain ⟨inner, rfl, hinner⟩ :=
      exists_append_of_not_mem (l := [Event.feasibilityCheck q checks false]) h (by simp)
    obtain ⟨earlier, found, rfl, hmem, hclose⟩ := ih _ hinner
    refine ⟨.feasibilityCheck q checks false :: earlier, found, rfl, ?_, hclose⟩
    rw [Trace.admitted]
    simpa [Event.feasible?] using hmem

/-- No corner is close to a point that was seen before it. -/
theorem Problem.pairwise_sift
    (hseen : seen.Pairwise fun earlier later => earlier.approxEq tolerance later = false) :
    (seen ++ (p.sift tolerance seen points).filterMap Candidate.corner?).Pairwise
      fun earlier later => earlier.approxEq tolerance later = false := by
  fun_induction p.sift tolerance seen points with
  | case1 seen => simpa using hseen
  | case2 seen q rest checks hall corner hfind ih => exact ih hseen
  | case3 seen q rest checks hall hfind ih =>
    have hnew : ∀ corner ∈ seen, corner.approxEq tolerance q = false := by
      simpa using List.find?_eq_none.mp hfind
    have hpairwise := ih (List.pairwise_append.mpr
      ⟨hseen, List.pairwise_singleton _ _, by simpa using hnew⟩)
    rw [List.append_assoc] at hpairwise
    exact hpairwise
  | case4 seen q rest checks hall ih => exact ih hseen

end Sift

namespace Problem

variable {tolerance : α} {p : Problem α}

theorem lines_crossings (tolerance : α) (lines : List (Line α)) :
    (crossings tolerance lines).map (fun c => (c.first, c.second)) =
      pairs (lines.map (·.label)) := by
  rw [crossings, List.map_map, pairs_map]
  rfl

/-- What is read off a trace event by event comes from crossings, candidates and vertices. -/
theorem filterMap_trace_optimum {β : Type} {f : Event α → Option β}
    (hf : ∀ e : Event α, e.IsAside → f e = none) (s : Survey α) :
    (p.optimum tolerance s).trace.filterMap f =
      s.crossings.filterMap (fun c => f c.event) ++
        (s.candidates.flatMap (fun c => c.events.filterMap f) ++
          (s.vertices p.objective).filterMap fun v => f (.vertexEvaluation v.point v.value)) := by
  obtain ⟨asides, last, hasides, hlast, htrace⟩ := p.exists_trace_optimum tolerance s
  have hnil : asides.filterMap f = [] :=
    List.filterMap_eq_nil_iff.mpr fun e he => hf e (hasides e he)
  rw [htrace]
  simp [hnil, hf last hlast, List.filterMap_append, List.filterMap_map, List.filterMap_flatMap]

variable (tolerance p) in
theorem lines_trace : (p.optimum tolerance (p.survey tolerance)).trace.filterMap Event.lines? =
    pairs (p.lineLabels tolerance) := by
  rw [filterMap_trace_optimum fun e he => he.isSilent.1]
  simp only [(Crossing.event_cases _).1, (Candidate.events_cases _).1,
    (Event.vertexEvaluation_cases _ _).1, List.filterMap_eq_map']
  simp [survey, lines_crossings, label_boundaryLines]

theorem intersections_trace (s : Survey α) :
    (p.optimum tolerance s).trace.filterMap Event.intersection? =
      s.crossings.filterMap (·.point) := by
  rw [filterMap_trace_optimum fun e he => he.isSilent.2.1]
  simp [(Crossing.event_cases _).2.1, (Candidate.events_cases _).2.1,
    (Event.vertexEvaluation_cases _ _).2.1]

theorem checked_trace (s : Survey α) :
    (p.optimum tolerance s).trace.filterMap Event.checked? = s.candidates.map (·.point) := by
  rw [filterMap_trace_optimum fun e he => he.isSilent.2.2.1]
  simp [(Crossing.event_cases _).2.2.1, (Candidate.events_cases _).2.2.1,
    (Event.vertexEvaluation_cases _ _).2.2.1, List.map_eq_flatMap]

theorem evaluations_trace (s : Survey α) :
    (p.optimum tolerance s).trace.filterMap Event.evaluation? = s.vertices p.objective := by
  rw [filterMap_trace_optimum fun e he => he.isSilent.2.2.2.2.1]
  simp [(Crossing.event_cases _).2.2.2.2.1, (Candidate.events_cases _).2.2.2.1,
    (Event.vertexEvaluation_cases _ _).2.2.2.2.1]

/-- A check belongs to a candidate. -/
theorem exists_candidate_of_checked {s : Survey α} {e : Event α} {q : Point α}
    (he : e ∈ (p.optimum tolerance s).trace) (hq : e.checked? = some q) :
    ∃ c ∈ s.candidates, e ∈ c.events := by
  obtain ⟨asides, last, hasides, hlast, htrace⟩ := p.exists_trace_optimum tolerance s
  simp only [htrace, List.mem_append, List.mem_map, List.mem_flatMap, List.mem_singleton] at he
  obtain he | ⟨c, -, rfl⟩ | hc | ⟨v, -, rfl⟩ | rfl := he
  · rw [(hasides e he).isSilent.2.2.1] at hq
    cases hq
  · rw [c.event_cases.2.2.1] at hq
    cases hq
  · exact hc
  · cases hq
  · rw [hlast.isSilent.2.2.1] at hq
    cases hq

theorem checks_trace {point : Point α} {checks : List (Check α)} {feasible : Bool}
    (h : .feasibilityCheck point checks feasible ∈
      (p.optimum tolerance (p.survey tolerance)).trace) :
    checks = p.checksAt tolerance point ∧ feasible = checks.all (·.satisfied) := by
  obtain ⟨c, hc, hmem⟩ := exists_candidate_of_checked h rfl
  obtain ⟨hchecks, hverdict⟩ := checks_of_mem_sift c hc
  rw [Candidate.events] at hmem
  cases hv : c.verdict with
  | rejected =>
    obtain ⟨rfl, rfl, rfl⟩ : _ ∧ _ ∧ _ := by simpa [hv] using hmem
    exact ⟨hchecks, (hverdict.mp hv).symm⟩
  | duplicate existing =>
    obtain ⟨rfl, rfl, rfl⟩ : _ ∧ _ ∧ _ := by simpa [hv] using hmem
    exact ⟨hchecks, by simpa [hv] using hverdict⟩
  | corner =>
    obtain ⟨rfl, rfl, rfl⟩ : _ ∧ _ ∧ _ := by simpa [hv] using hmem
    exact ⟨hchecks, by simpa [hv] using hverdict⟩

theorem satisfied_of_mem_checksAt (point : Point α) : ∀ c ∈ p.checksAt tolerance point,
    c.satisfied = c.relation.holds tolerance c.lhs c.bound := by
  simp only [checksAt, List.forall_mem_cons, List.forall_mem_map, true_and]
  exact fun _ _ => rfl

/-- The trace of a solve accounts for all that the survey of its problem finds. -/
theorem isAccountedFor_optimum (tolerance : α) (p : Problem α) :
    (p.optimum tolerance (p.survey tolerance)).IsAccountedFor tolerance p := by
  obtain ⟨asides, last, hasides, hlast, htrace⟩ :=
    p.exists_trace_optimum tolerance (p.survey tolerance)
  have hends : ∀ e ∈ ((p.survey tolerance).vertices p.objective).map
      (fun v => Event.vertexEvaluation v.point v.value) ++ [last],
      e.feasible? = none ∧ e.isDuplicate = false := by
    simp only [List.forall_mem_append, List.forall_mem_map, List.forall_mem_singleton]
    exact ⟨fun v _ => ⟨rfl, rfl⟩, hlast.isSilent.2.2.2.1, hlast.isSilent.2.2.2.2.2⟩
  have hbegins : ∀ e ∈ asides ++ (p.survey tolerance).crossings.map Crossing.event,
      e.feasible? = none ∧ e.isDuplicate = false := by
    simp only [List.forall_mem_append, List.forall_mem_map]
    exact ⟨fun e he => ⟨(hasides e he).isSilent.2.2.2.1, (hasides e he).isSilent.2.2.2.2.2⟩,
      fun c _ => ⟨c.event_cases.2.2.2.1, c.event_cases.2.2.2.2.2⟩⟩
  rw [← List.append_assoc] at htrace
  have hadmitted : Trace.admitted (p.optimum tolerance (p.survey tolerance)).trace =
      (p.survey tolerance).corners := by
    have hends' := Trace.admitted_append_of_feasible? (m := []) fun e he => (hends e he).1
    rw [List.append_nil] at hends'
    rw [htrace, Trace.admitted_append_of_feasible? fun e he => (hbegins e he).1,
      Trace.admitted_append (Trace.head?_any_eq_false fun e he => (hends e he).2), hends',
      Candidate.admitted_flatMap_events]
    exact List.append_nil _
  refine ⟨?_, ?_, fun point checks feasible h => ?_, ?_, fun before point existing h => ?_, ?_, ?_,
    ?_⟩
  · rw [lines_trace, pairs_eq_map]
  · rw [checked_trace, intersections_trace]
    exact map_point_sift
  · obtain ⟨rfl, hfeasible⟩ := checks_trace h
    exact ⟨by simp [checksAt], satisfied_of_mem_checksAt point, hfeasible⟩
  · rw [vertices_optimum, points_vertices, hadmitted]
  · rw [htrace] at h
    obtain ⟨inner, rfl, hinner⟩ := exists_append_of_not_mem h
      (Trace.not_mem_of_isDuplicate rfl fun e he => (hbegins e he).2)
    obtain ⟨earlier, checks, rfl, hmem, hclose⟩ := duplicates_sift _
      (stands_left_of_not_mem hinner
        (Trace.not_mem_of_isDuplicate rfl fun e he => (hends e he).2))
    refine ⟨_, checks, (List.append_assoc _ _ _).symm, ?_, hclose⟩
    rwa [Trace.admitted_append_of_feasible? fun e he => (hbegins e he).1]
  · rw [vertices_optimum, points_vertices]
    exact pairwise_sift List.Pairwise.nil
  · rw [evaluations_trace, vertices_optimum]
  · rw [vertices_optimum]
    simp [Survey.vertices]

/-- A problem in the plane is solved, and the trace of the solve accounts for every pair of lines,
every candidate and every vertex. -/
theorem solveByCorners_accounts (hv : p.validate = .ok ()) (h2 : p.variableCount = 2)
    (tolerance : α) : ∃ solution, p.solveByCorners tolerance = .ok solution ∧
      solution.IsAccountedFor tolerance p :=
  ⟨_, solveByCorners_of_validate tolerance hv h2, isAccountedFor_optimum tolerance p⟩

end Problem

/-- A line that is listed twice, and a row without coefficients. -/
def doubledProblem : Problem Float :=
  ⟨⟨[1, 1], .maximize⟩, [⟨[1, 1], .le, 4⟩, ⟨[0, 0], .le, 1⟩, ⟨[2, 2], .le, 8⟩]⟩

theorem solveByCorners_accounts_doubledProblem : doubledProblem.validate = .ok () ∧
    ∃ solution, doubledProblem.solveByCorners Scalar.defaultTolerance = .ok solution ∧
      solution.vertices.map (·.point) = [⟨0, 4⟩, ⟨4, 0⟩, ⟨0, 0⟩] ∧
      Trace.admitted solution.trace = [⟨0, 4⟩, ⟨4, 0⟩, ⟨0, 0⟩] := by
  have hv : doubledProblem.validate = .ok () := by decide +kernel
  obtain ⟨solution, hsolve, haccount⟩ :=
    Problem.solveByCorners_accounts hv rfl Scalar.defaultTolerance
  obtain rfl := Except.ok.inj ((Problem.solveByCorners_of_validate _ hv rfl).symm.trans hsolve)
  have hvertices : (doubledProblem.optimum Scalar.defaultTolerance
      (doubledProblem.survey Scalar.defaultTolerance)).vertices.map (·.point) =
        [⟨0, 4⟩, ⟨4, 0⟩, ⟨0, 0⟩] := by decide +kernel
  exact ⟨hv, _, hsolve, hvertices, haccount.vertices_eq.symm.trans hvertices⟩

end LinearProgram
