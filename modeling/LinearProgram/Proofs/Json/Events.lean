import LinearProgram.Proofs.Json.Shapes
import LinearProgram.Shape.Response

/-! # Codecs of traces and responses

Every kind of event has a payload of its own: a record of the event's fields, from which the event
is made. The codec of events chooses the payload's codec by the name of the kind.
-/

namespace LinearProgram

open Json (Codec FieldsCodec Fields Place FirstNames)

namespace Event

/-- A kind of events: its name, and how its events are made of the fields of their payloads. -/
structure Variant where
  kind : String
  Payload : Type
  fields : FieldsCodec Payload
  make : Payload → Event Float

/-- The labels of two lines. -/
def linesCodec : Codec (String × String) :=
  Codec.text.list.copy (fun (first, second) => .list .text [first, second]) linesOfJson
    (fun (first, second) => [first, second])
    (fun | [first, second] => some (first, second) | _ => none)
    (fun _ => rfl) (fun _ _ => rfl) (fun _ => rfl) (by
      intro labels lines h
      split at h <;> cases h
      rfl)

namespace Variant

def objective : Variant :=
  ⟨"objective", _, .cons "sense" Sense.codec.required <|
    .cons "coefficients" Codec.float.list.required <|
    .cons "variables" Codec.text.list.required .nil,
    fun (sense, coefficients, names, _) => .objective sense coefficients names⟩

def constraintList : Variant :=
  ⟨"constraintList", _, .cons "constraints" Constraint.codec.list.required <|
    .cons "variables" Codec.text.list.required .nil,
    fun (constraints, names, _) => .constraintList constraints names⟩

def degenerateConstraint : Variant :=
  ⟨"degenerateConstraint", _, .cons "label" Codec.text.required <|
    .cons "relation" Relation.codec.required <| .cons "bound" Codec.float.required <|
    .cons "alwaysSatisfied" Codec.bool.required .nil,
    fun (label, relation, bound, alwaysSatisfied, _) =>
      .degenerateConstraint label relation bound alwaysSatisfied⟩

def parallelLines : Variant :=
  ⟨"parallelLines", _, .cons "lines" linesCodec.required .nil,
    fun (lines, _) => .parallelLines lines.1 lines.2⟩

def intersection : Variant :=
  ⟨"intersection", _, .cons "lines" linesCodec.required <|
    .cons "point" Point.codec.required .nil,
    fun (lines, point, _) => .intersection lines.1 lines.2 point⟩

def feasibilityCheck : Variant :=
  ⟨"feasibilityCheck", _, .cons "point" Point.codec.required <|
    .cons "checks" Check.codec.list.required <| .cons "feasible" Codec.bool.required .nil,
    fun (point, checks, feasible, _) => .feasibilityCheck point checks feasible⟩

def duplicateVertex : Variant :=
  ⟨"duplicateVertex", _, .cons "point" Point.codec.required <|
    .cons "existing" Point.codec.required .nil,
    fun (point, existing, _) => .duplicateVertex point existing⟩

def vertexEvaluation : Variant :=
  ⟨"vertexEvaluation", _, .cons "point" Point.codec.required <|
    .cons "value" Codec.float.required .nil,
    fun (point, value, _) => .vertexEvaluation point value⟩

def optimumSelected : Variant :=
  ⟨"optimumSelected", _, .cons "sense" Sense.codec.required <|
    .cons "value" Codec.float.required <| .cons "points" Point.codec.list.required <|
    .cons "solutionType" Multiplicity.codec.required .nil,
    fun (sense, value, points, solutionType, _) =>
      .optimumSelected sense value points solutionType⟩

def infeasible : Variant :=
  ⟨"infeasible", _, .cons "reason" Codec.text.required .nil, fun (reason, _) => .infeasible reason⟩

def standardForm : Variant :=
  ⟨"standardForm", _, .cons "discipline" Discipline.codec.required <|
    .cons "columns" Codec.text.list.required <| .cons "slack" Codec.count.required <|
    .cons "surplus" Codec.count.required <| .cons "artificial" Codec.count.required .nil,
    fun (discipline, columns, slack, surplus, artificial, _) =>
      .standardForm discipline columns slack surplus artificial⟩

def rowNormalized : Variant :=
  ⟨"rowNormalized", _, .cons "label" Codec.text.required <|
    .cons "relation" Relation.codec.required .nil,
    fun (label, relation, _) => .rowNormalized label relation⟩

def phaseStarted : Variant :=
  ⟨"phaseStarted", _, .cons "phase" phaseCodec.required .nil, fun (phase, _) => .phaseStarted phase⟩

def phaseCompleted : Variant :=
  ⟨"phaseCompleted", _, .cons "phase" phaseCodec.required <|
    .cons "objectiveValue" Codec.float.required .nil,
    fun (phase, objectiveValue, _) => .phaseCompleted phase objectiveValue⟩

def initialTableau : Variant :=
  ⟨"initialTableau", _, .cons "tableau" Codec.count.required .nil,
    fun (tableau, _) => .initialTableau tableau⟩

def optimalityReached : Variant :=
  ⟨"optimalityReached", _, .cons "iteration" Codec.count.required .nil,
    fun (iteration, _) => .optimalityReached iteration⟩

def enteringVariable : Variant :=
  ⟨"enteringVariable", _, .cons "iteration" Codec.count.required <|
    .cons "column" Codec.count.required <| .cons "variable" Codec.text.required <|
    .cons "reducedCost" Codec.float.required .nil,
    fun (iteration, column, variableName, reducedCost, _) =>
      .enteringVariable iteration column variableName reducedCost⟩

def ratioTest : Variant :=
  ⟨"ratioTest", _, .cons "iteration" Codec.count.required <|
    .cons "ratios" (Codec.float.option Codec.float_read_null).list.required <|
    .cons "leavingRow" (Codec.count.optional Codec.count_read_null) <|
    .cons "leavingVariable" (Codec.text.optional Codec.text_read_null) .nil,
    fun (iteration, ratios, leavingRow, leavingVariable, _) =>
      .ratioTest iteration ratios leavingRow leavingVariable⟩

def pivot : Variant :=
  ⟨"pivot", _, .cons "iteration" Codec.count.required <| .cons "row" Codec.count.required <|
    .cons "column" Codec.count.required <| .cons "pivotElement" Codec.float.required <|
    .cons "entering" Codec.text.required <| .cons "leaving" Codec.text.required <|
    .cons "objectiveBefore" Codec.float.required <| .cons "objectiveAfter" Codec.float.required <|
    .cons "tableau" Codec.count.required .nil,
    fun (iteration, row, column, pivotElement, entering, leaving, objectiveBefore, objectiveAfter,
      tableau, _) => .pivot iteration row column pivotElement entering leaving objectiveBefore
        objectiveAfter tableau⟩

def artificialDrivenOut : Variant :=
  ⟨"artificialDrivenOut", _, .cons "row" Codec.count.required <|
    .cons "artificial" Codec.text.required <|
    .cons "replacement" (Codec.text.optional Codec.text_read_null) .nil,
    fun (row, artificial, replacement, _) => .artificialDrivenOut row artificial replacement⟩

def penaltyRecheck : Variant :=
  ⟨"penaltyRecheck", _, .cons "artificial" Codec.text.required <|
    .cons "value" Codec.float.required .nil,
    fun (artificial, value, _) => .penaltyRecheck artificial value⟩

def unbounded : Variant :=
  ⟨"unbounded", _, .cons "variable" Codec.text.required .nil,
    fun (variableName, _) => .unbounded variableName⟩

def iterationLimit : Variant :=
  ⟨"iterationLimit", _, .cons "limit" Codec.count.required .nil,
    fun (limit, _) => .iterationLimit limit⟩

def solution : Variant :=
  ⟨"solution", _, .cons "value" Codec.float.required <|
    .cons "assignment" Codec.float.list.required <|
    .cons "variables" Codec.text.list.required .nil,
    fun (value, assignment, names, _) => .solution value assignment names⟩

def all : List Variant :=
  [objective, constraintList, degenerateConstraint, parallelLines, intersection, feasibilityCheck,
    duplicateVertex, vertexEvaluation, optimumSelected, infeasible, standardForm, rowNormalized,
    phaseStarted, phaseCompleted, initialTableau, optimalityReached, enteringVariable, ratioTest,
    pivot, artificialDrivenOut, penaltyRecheck, unbounded, iterationLimit, solution]

end Variant

/-- The kind of an event, and the fields of its payload. -/
def parts : Event Float → (v : Variant) × v.Payload
  | objective sense coefficients names => ⟨.objective, sense, coefficients, names, ()⟩
  | constraintList constraints names => ⟨.constraintList, constraints, names, ()⟩
  | degenerateConstraint label relation bound alwaysSatisfied =>
    ⟨.degenerateConstraint, label, relation, bound, alwaysSatisfied, ()⟩
  | parallelLines first second => ⟨.parallelLines, (first, second), ()⟩
  | intersection first second point => ⟨.intersection, (first, second), point, ()⟩
  | feasibilityCheck point checks feasible => ⟨.feasibilityCheck, point, checks, feasible, ()⟩
  | duplicateVertex point existing => ⟨.duplicateVertex, point, existing, ()⟩
  | vertexEvaluation point value => ⟨.vertexEvaluation, point, value, ()⟩
  | optimumSelected sense value points solutionType =>
    ⟨.optimumSelected, sense, value, points, solutionType, ()⟩
  | infeasible reason => ⟨.infeasible, reason, ()⟩
  | standardForm discipline columns slack surplus artificial =>
    ⟨.standardForm, discipline, columns, slack, surplus, artificial, ()⟩
  | rowNormalized label relation => ⟨.rowNormalized, label, relation, ()⟩
  | phaseStarted phase => ⟨.phaseStarted, phase, ()⟩
  | phaseCompleted phase objectiveValue => ⟨.phaseCompleted, phase, objectiveValue, ()⟩
  | initialTableau tableau => ⟨.initialTableau, tableau, ()⟩
  | optimalityReached iteration => ⟨.optimalityReached, iteration, ()⟩
  | enteringVariable iteration column variableName reducedCost =>
    ⟨.enteringVariable, iteration, column, variableName, reducedCost, ()⟩
  | ratioTest iteration ratios leavingRow leavingVariable =>
    ⟨.ratioTest, iteration, ratios, leavingRow, leavingVariable, ()⟩
  | pivot iteration row column pivotElement entering leaving objectiveBefore objectiveAfter
      tableau =>
    ⟨.pivot, iteration, row, column, pivotElement, entering, leaving, objectiveBefore,
      objectiveAfter, tableau, ()⟩
  | artificialDrivenOut row artificial replacement =>
    ⟨.artificialDrivenOut, row, artificial, replacement, ()⟩
  | penaltyRecheck artificial value => ⟨.penaltyRecheck, artificial, value, ()⟩
  | unbounded variableName => ⟨.unbounded, variableName, ()⟩
  | iterationLimit limit => ⟨.iterationLimit, limit, ()⟩
  | solution value assignment names => ⟨.solution, value, assignment, names, ()⟩

theorem make_parts (e : Event Float) : e.parts.1.make e.parts.2 = e := by
  cases e <;> rfl

theorem payload_eq (e : Event Float) :
    e.payload = Json.written (e.parts.1.fields.slots e.parts.2) := by
  cases e <;> rfl

theorem fieldNames_eq : fieldNames = Variant.all.map fun v => (v.kind, v.fields.names) := rfl

def Variant.named? (kind : String) : Option Variant := Variant.all.find? (·.kind == kind)

theorem named?_kind (e : Event Float) : Variant.named? e.kind = some e.parts.1 := by
  cases e <;> rfl

theorem lookup_fieldNames (kind : String) :
    fieldNames.lookup kind = (Variant.named? kind).map (·.fields.names) := by
  rw [fieldNames_eq, Variant.named?]
  induction Variant.all with
  | nil => rfl
  | cons v all ih =>
    rw [List.map_cons, List.lookup_cons, List.find?_cons, ih, Bool.beq_comm]
    cases v.kind == kind <;> rfl

theorem ofFields_eq (f : Fields) (kind : String) : ofFields f kind =
    (Variant.named? kind).bind fun v => v.fields.read f fun w => some (v.make w) := by
  unfold ofFields
  split
  case h_25 =>
    have hnone : fieldNames.lookup kind = none := by
      rw [List.lookup_eq_none_iff]
      simp_all [fieldNames]
    rw [lookup_fieldNames, Option.map_eq_none_iff] at hnone
    rw [hnone]
    rfl
  all_goals first | rfl | (rw [Option.map_eq_bind]; rfl)

theorem nodup_names {kind : String} {v : Variant} (h : Variant.named? kind = some v) :
    v.fields.names.Nodup := by
  have hall : ∀ v ∈ Variant.all, v.fields.names.Nodup := by decide
  exact hall v (List.mem_of_find?_eq_some h)

/-- Events made of fields of their kinds have these parts. -/
theorem parts_make {kind : String} {v : Variant} (h : Variant.named? kind = some v)
    (w : v.Payload) : (v.make w).parts = ⟨v, w⟩ := by
  have hmem := List.mem_of_find?_eq_some h
  fin_cases hmem <;> rfl

theorem payloadOfJson_eq (kind : String) (place : Place) (fields : List (Option String × Json)) :
    payloadOfJson kind place (.object fields) = (Variant.named? kind).bind fun v =>
      (Json.fields? (v.fields.names.map ([·])) place (.object fields)).bind fun f =>
        v.fields.read f fun w => some (v.make w) := by
  rw [payloadOfJson, lookup_fieldNames]
  simp only [ofFields_eq]
  cases Variant.named? kind <;> rfl

/-- What is read from a payload could be written as one. -/
theorem of_payloadOfJson {kind : String} {place : Place} {j : Json} {e : Event Float}
    (h : payloadOfJson kind place j = some e) :
    (∀ x ∈ e.parts.1.fields.floats e.parts.2, x.isFinite = true) ∧
      e.parts.1.fields.fits e.parts.2 = true ∧ (Json.record e.payload).depth ≤ place.room := by
  obtain ⟨fields, rfl⟩ : ∃ fields, j = .object fields := by
    simp only [payloadOfJson, Option.bind_eq_bind, Option.bind_eq_some_iff] at h
    obtain ⟨_, -, h⟩ := h
    split at h
    · exact ⟨_, rfl⟩
    · cases h
  simp only [payloadOfJson_eq, Option.bind_eq_some_iff] at h
  obtain ⟨v, hv, f, hf, h⟩ := h
  obtain ⟨w, hw, hfloats, hfits, hdepth⟩ := v.fields.of_read h
  obtain rfl := Option.some.inj hw
  rw [payload_eq, parts_make hv, Place.room_eq (Json.place_of_fields? hf),
    FieldsCodec.depth_record]
  exact ⟨hfloats, hfits, hdepth⟩

theorem payloadOfJson_payload {place : Place} {e : Event Float}
    (he : ∀ x ∈ e.parts.1.fields.floats e.parts.2, x.isFinite = true)
    (hfits : e.parts.1.fields.fits e.parts.2 = true)
    (hdepth : (Json.record e.payload).depth ≤ place.room) :
    payloadOfJson e.kind place (.record e.payload) = some e := by
  rw [payload_eq] at hdepth ⊢
  have hread := e.parts.1.fields.read_record (fun w => some (e.parts.1.make w))
    (Json.firstNames_singleton (nodup_names (named?_kind e))) he hfits hdepth
  rw [Json.record, payloadOfJson_eq, named?_kind]
  exact hread.trans (congrArg some (make_parts e))

theorem depth_toJson (e : Event Float) : e.toJson.depth = (Json.record e.payload).depth + 1 := by
  simp [toJson, Json.record, Json.text, Json.depth, Json.depthFields]

def codec : Codec (Event Float) where
  write := toJson
  read := ofJson
  floats e := e.parts.1.fields.floats e.parts.2
  fits e := e.parts.1.fields.fits e.parts.2
  spelled {P e} he hfits := by
    have hpayload := e.parts.1.fields.spelled_record he hfits
    rw [← payload_eq] at hpayload
    exact .object (by simp) (by simpa using ⟨.string e.kind, hpayload⟩)
  read_write {place e} he hfits hdepth := by
    rw [depth_toJson] at hdepth
    obtain ⟨inside, hinside, hroom, -⟩ := Place.inside?_of_depth hdepth
    have hkind : kinds.lookup e.kind = some e.kind := by
      cases e <;> rfl
    have hfields : Json.fields? [["kind"], ["payload"]] place e.toJson =
        some ⟨[("kind", .text e.kind), ("payload", .record e.payload)], inside⟩ :=
      @Json.fields?_record _ _ _
        [("kind", some (.text e.kind)), ("payload", some (.record e.payload))] hinside
        (by decide : FirstNames [["kind"], ["payload"]] ["kind", "payload"])
    -- the kind is written in front of the payload, which is then not read early
    change ((Json.fields? [["kind"], ["payload"]] place e.toJson).bind fun f =>
      (f.required "kind" (.named kinds)).bind fun kind =>
        (f.required "payload" fun _ payload => some payload).bind fun payload =>
          payloadOfJson kind f.place payload) = some e
    rw [hfields]
    change ((kinds.lookup e.kind).bind fun kind =>
      payloadOfJson kind inside (.record e.payload)) = some e
    rw [hkind]
    exact payloadOfJson_payload he hfits hroom
  of_read {place j e} h := by
    simp only [ofJson, Option.bind_eq_bind, Option.bind_eq_some_iff] at h
    obtain ⟨f, hf, kind, -, payload, -, h⟩ := h
    obtain ⟨early, hread⟩ : ∃ early, payloadOfJson kind ⟨f.place.room, early⟩ payload = some e := by
      split_ifs at h
      · exact ⟨_, h⟩
      · exact ⟨_, h⟩
    obtain ⟨hfloats, hfits, hdepth⟩ := of_payloadOfJson hread
    rw [depth_toJson, Place.room_eq (Json.place_of_fields? hf)]
    exact ⟨hfloats, hfits, Nat.succ_le_succ hdepth⟩

end Event

def Trace.codec : Codec (Trace Float) := Event.codec.list

def CornerResponse.codec : Codec CornerResponse :=
  (FieldsCodec.cons "status" Status.codec.required <|
    .cons "vertices" Point.codec.list.required <|
    .cons "objectiveValues" Codec.float.list.required <|
    .cons "optimalValue" (Codec.float.optional Codec.float_read_null) <|
    .cons "optimalPoints" Point.codec.list.required <|
    .cons "solutionType" (Multiplicity.codec.optional Multiplicity.read_null) <|
    .cons "trace" Trace.codec.required .nil).record
    [["status"], ["vertices"], ["objectiveValues"], ["optimalValue"], ["optimalPoints"],
      ["solutionType"], ["trace"]] toJson ofJson
    (fun r => (r.status, r.vertices, r.objectiveValues, r.optimalValue, r.optimalPoints,
      r.solutionType, r.trace, ()))
    (fun (status, vertices, objectiveValues, optimalValue, optimalPoints, solutionType, trace, _) =>
      ⟨status, vertices, objectiveValues, optimalValue, optimalPoints, solutionType, trace⟩)
    (by decide) (fun _ => rfl) (fun _ _ => rfl) (fun _ => rfl) (fun _ => rfl)

def SimplexSolution.codec : Codec (SimplexSolution Float) :=
  (FieldsCodec.cons "status" Status.codec.required <|
    .cons "assignment" Codec.float.list.required <|
    .cons "optimalValue" (Codec.float.optional Codec.float_read_null) <|
    .cons "solutionType" (Multiplicity.codec.optional Multiplicity.read_null) <|
    .cons "degenerate" Codec.bool.required <| .cons "iterations" Codec.count.required <|
    .cons "tableaus" Snapshot.codec.list.required <| .cons "trace" Trace.codec.required .nil).record
    [["status"], ["assignment"], ["optimalValue"], ["solutionType"], ["degenerate"],
      ["iterations"], ["tableaus"], ["trace"]] toJson ofJson
    (fun s => (s.status, s.assignment, s.optimalValue, s.solutionType, s.degenerate, s.iterations,
      s.tableaus, s.trace, ()))
    (fun (status, assignment, optimalValue, solutionType, degenerate, iterations, tableaus, trace,
      _) => ⟨status, assignment, optimalValue, solutionType, degenerate, iterations, tableaus,
        trace⟩)
    (by decide) (fun _ => rfl) (fun _ _ => rfl) (fun _ => rfl) (fun _ => rfl)

end LinearProgram
