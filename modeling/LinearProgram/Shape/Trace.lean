import LinearProgram.Shape.Solution
import LinearProgram.Trace.Event

/-! # Traces in JSON

An event is an object with the kind of the event and its payload; a trace is the list of its events.
-/

namespace LinearProgram

open Json (Decoder Fields)

namespace Event

def kind {α : Type} : Event α → String
  | objective .. => "objective"
  | constraintList .. => "constraintList"
  | degenerateConstraint .. => "degenerateConstraint"
  | parallelLines .. => "parallelLines"
  | intersection .. => "intersection"
  | feasibilityCheck .. => "feasibilityCheck"
  | duplicateVertex .. => "duplicateVertex"
  | vertexEvaluation .. => "vertexEvaluation"
  | optimumSelected .. => "optimumSelected"
  | infeasible .. => "infeasible"
  | standardForm .. => "standardForm"
  | rowNormalized .. => "rowNormalized"
  | phaseStarted .. => "phaseStarted"
  | phaseCompleted .. => "phaseCompleted"
  | initialTableau .. => "initialTableau"
  | optimalityReached .. => "optimalityReached"
  | enteringVariable .. => "enteringVariable"
  | ratioTest .. => "ratioTest"
  | pivot .. => "pivot"
  | artificialDrivenOut .. => "artificialDrivenOut"
  | penaltyRecheck .. => "penaltyRecheck"
  | unbounded .. => "unbounded"
  | iterationLimit .. => "iterationLimit"
  | solution .. => "solution"

def payload : Event Float → List (String × Json)
  | objective sense coefficients names =>
    [("sense", sense.toJson), ("coefficients", .list .float coefficients),
      ("variables", .list .text names)]
  | constraintList constraints names =>
    [("constraints", .list Constraint.toJson constraints), ("variables", .list .text names)]
  | degenerateConstraint label relation bound alwaysSatisfied =>
    [("label", .text label), ("relation", relation.toJson), ("bound", .float bound),
      ("alwaysSatisfied", .bool alwaysSatisfied)]
  | parallelLines first second => [("lines", .list .text [first, second])]
  | intersection first second point =>
    [("lines", .list .text [first, second]), ("point", point.toJson)]
  | feasibilityCheck point checks feasible =>
    [("point", point.toJson), ("checks", .list Check.toJson checks), ("feasible", .bool feasible)]
  | duplicateVertex point existing =>
    [("point", point.toJson), ("existing", existing.toJson)]
  | vertexEvaluation point value => [("point", point.toJson), ("value", .float value)]
  | optimumSelected sense value points solutionType =>
    [("sense", sense.toJson), ("value", .float value), ("points", .list Point.toJson points),
      ("solutionType", solutionType.toJson)]
  | infeasible reason => [("reason", .text reason)]
  | standardForm discipline columns slack surplus artificial =>
    [("discipline", discipline.toJson), ("columns", .list .text columns), ("slack", .natural slack),
      ("surplus", .natural surplus), ("artificial", .natural artificial)]
  | rowNormalized label relation => [("label", .text label), ("relation", relation.toJson)]
  | phaseStarted phase => [("phase", .natural phase)]
  | phaseCompleted phase objectiveValue =>
    [("phase", .natural phase), ("objectiveValue", .float objectiveValue)]
  | initialTableau tableau => [("tableau", .natural tableau)]
  | optimalityReached iteration => [("iteration", .natural iteration)]
  | enteringVariable iteration column variableName reducedCost =>
    [("iteration", .natural iteration), ("column", .natural column),
      ("variable", .text variableName), ("reducedCost", .float reducedCost)]
  | ratioTest iteration ratios leavingRow leavingVariable =>
    [("iteration", .natural iteration), ("ratios", .list (.option .float) ratios),
      ("leavingRow", .option .natural leavingRow),
      ("leavingVariable", .option .text leavingVariable)]
  | pivot iteration row column pivotElement entering leaving objectiveBefore objectiveAfter
      tableau =>
    [("iteration", .natural iteration), ("row", .natural row), ("column", .natural column),
      ("pivotElement", .float pivotElement), ("entering", .text entering),
      ("leaving", .text leaving), ("objectiveBefore", .float objectiveBefore),
      ("objectiveAfter", .float objectiveAfter), ("tableau", .natural tableau)]
  | artificialDrivenOut row artificial replacement =>
    [("row", .natural row), ("artificial", .text artificial),
      ("replacement", .option .text replacement)]
  | penaltyRecheck artificial value => [("artificial", .text artificial), ("value", .float value)]
  | unbounded variableName => [("variable", .text variableName)]
  | iterationLimit limit => [("limit", .natural limit)]
  | solution value assignment names =>
    [("value", .float value), ("assignment", .list .float assignment),
      ("variables", .list .text names)]

def toJson (e : Event Float) : Json :=
  .record [("kind", .text e.kind), ("payload", .record e.payload)]

/-- The labels of two lines. -/
def linesOfJson : Decoder (String × String) := fun place j => do
  match ← Decoder.list .text place j with
  | [first, second] => some (first, second)
  | _ => none

/-- The fields of each kind of event. -/
def fieldNames : List (String × List String) :=
  [("objective", ["sense", "coefficients", "variables"]),
    ("constraintList", ["constraints", "variables"]),
    ("degenerateConstraint", ["label", "relation", "bound", "alwaysSatisfied"]),
    ("parallelLines", ["lines"]),
    ("intersection", ["lines", "point"]),
    ("feasibilityCheck", ["point", "checks", "feasible"]),
    ("duplicateVertex", ["point", "existing"]),
    ("vertexEvaluation", ["point", "value"]),
    ("optimumSelected", ["sense", "value", "points", "solutionType"]),
    ("infeasible", ["reason"]),
    ("standardForm", ["discipline", "columns", "slack", "surplus", "artificial"]),
    ("rowNormalized", ["label", "relation"]),
    ("phaseStarted", ["phase"]),
    ("phaseCompleted", ["phase", "objectiveValue"]),
    ("initialTableau", ["tableau"]),
    ("optimalityReached", ["iteration"]),
    ("enteringVariable", ["iteration", "column", "variable", "reducedCost"]),
    ("ratioTest", ["iteration", "ratios", "leavingRow", "leavingVariable"]),
    ("pivot", ["iteration", "row", "column", "pivotElement", "entering", "leaving",
      "objectiveBefore", "objectiveAfter", "tableau"]),
    ("artificialDrivenOut", ["row", "artificial", "replacement"]),
    ("penaltyRecheck", ["artificial", "value"]),
    ("unbounded", ["variable"]),
    ("iterationLimit", ["limit"]),
    ("solution", ["value", "assignment", "variables"])]

/-- The kinds of events by their names. -/
def kinds : List (String × String) := fieldNames.map fun (kind, _) => (kind, kind)

/-- An event of a kind from the fields of its payload. -/
def ofFields (f : Fields) : String → Option (Event Float)
  | "objective" => do
    let sense ← f.required "sense" Sense.ofJson
    let coefficients ← f.required "coefficients" (.list .float)
    let names ← f.required "variables" (.list .text)
    some (.objective sense coefficients names)
  | "constraintList" => do
    let constraints ← f.required "constraints" (.list Constraint.ofJson)
    let names ← f.required "variables" (.list .text)
    some (.constraintList constraints names)
  | "degenerateConstraint" => do
    let label ← f.required "label" .text
    let relation ← f.required "relation" Relation.ofJson
    let bound ← f.required "bound" .float
    let alwaysSatisfied ← f.required "alwaysSatisfied" .bool
    some (.degenerateConstraint label relation bound alwaysSatisfied)
  | "parallelLines" => do
    let (first, second) ← f.required "lines" linesOfJson
    some (.parallelLines first second)
  | "intersection" => do
    let (first, second) ← f.required "lines" linesOfJson
    let point ← f.required "point" Point.ofJson
    some (.intersection first second point)
  | "feasibilityCheck" => do
    let point ← f.required "point" Point.ofJson
    let checks ← f.required "checks" (.list Check.ofJson)
    let feasible ← f.required "feasible" .bool
    some (.feasibilityCheck point checks feasible)
  | "duplicateVertex" => do
    let point ← f.required "point" Point.ofJson
    let existing ← f.required "existing" Point.ofJson
    some (.duplicateVertex point existing)
  | "vertexEvaluation" => do
    let point ← f.required "point" Point.ofJson
    let value ← f.required "value" .float
    some (.vertexEvaluation point value)
  | "optimumSelected" => do
    let sense ← f.required "sense" Sense.ofJson
    let value ← f.required "value" .float
    let points ← f.required "points" (.list Point.ofJson)
    let solutionType ← f.required "solutionType" Multiplicity.ofJson
    some (.optimumSelected sense value points solutionType)
  | "infeasible" => (f.required "reason" .text).map .infeasible
  | "standardForm" => do
    let discipline ← f.required "discipline" Discipline.ofJson
    let columns ← f.required "columns" (.list .text)
    let slack ← f.required "slack" .count
    let surplus ← f.required "surplus" .count
    let artificial ← f.required "artificial" .count
    some (.standardForm discipline columns slack surplus artificial)
  | "rowNormalized" => do
    let label ← f.required "label" .text
    let relation ← f.required "relation" Relation.ofJson
    some (.rowNormalized label relation)
  | "phaseStarted" => (f.required "phase" phaseOfJson).map .phaseStarted
  | "phaseCompleted" => do
    let phase ← f.required "phase" phaseOfJson
    let objectiveValue ← f.required "objectiveValue" .float
    some (.phaseCompleted phase objectiveValue)
  | "initialTableau" => (f.required "tableau" .count).map .initialTableau
  | "optimalityReached" => (f.required "iteration" .count).map .optimalityReached
  | "enteringVariable" => do
    let iteration ← f.required "iteration" .count
    let column ← f.required "column" .count
    let variableName ← f.required "variable" .text
    let reducedCost ← f.required "reducedCost" .float
    some (.enteringVariable iteration column variableName reducedCost)
  | "ratioTest" => do
    let iteration ← f.required "iteration" .count
    let ratios ← f.required "ratios" (.list (.optional .float))
    let leavingRow ← f.optional "leavingRow" .count
    let leavingVariable ← f.optional "leavingVariable" .text
    some (.ratioTest iteration ratios leavingRow leavingVariable)
  | "pivot" => do
    let iteration ← f.required "iteration" .count
    let row ← f.required "row" .count
    let column ← f.required "column" .count
    let pivotElement ← f.required "pivotElement" .float
    let entering ← f.required "entering" .text
    let leaving ← f.required "leaving" .text
    let objectiveBefore ← f.required "objectiveBefore" .float
    let objectiveAfter ← f.required "objectiveAfter" .float
    let tableau ← f.required "tableau" .count
    some (.pivot iteration row column pivotElement entering leaving objectiveBefore objectiveAfter
      tableau)
  | "artificialDrivenOut" => do
    let row ← f.required "row" .count
    let artificial ← f.required "artificial" .text
    let replacement ← f.optional "replacement" .text
    some (.artificialDrivenOut row artificial replacement)
  | "penaltyRecheck" => do
    let artificial ← f.required "artificial" .text
    let value ← f.required "value" .float
    some (.penaltyRecheck artificial value)
  | "unbounded" => (f.required "variable" .text).map .unbounded
  | "iterationLimit" => (f.required "limit" .count).map .iterationLimit
  | "solution" => do
    let value ← f.required "value" .float
    let assignment ← f.required "assignment" (.list .float)
    let names ← f.required "variables" (.list .text)
    some (.solution value assignment names)
  | _ => none

/-- A payload is an object; it may not be a list of its values. -/
def payloadOfJson (kind : String) : Decoder (Event Float) := fun place j => do
  let names ← fieldNames.lookup kind
  match j with
  | .object _ => (Json.fields? (names.map ([·])) place j).bind (ofFields · kind)
  | _ => none

/-- Whether the payload stands before the kind. Such a payload is read whole, before its fields are
looked at. -/
def payloadComesFirst : List (Option String × Json) → Bool
  | (some "payload", _) :: _ => true
  | (some "kind", _) :: _ => false
  | _ :: rest => payloadComesFirst rest
  | [] => false

/-- The kind of an event in an object may be given as any name may, in an array only as a text. -/
def kindOfJson : Json → Decoder String
  | .object _ => .named kinds
  | _ => .text

def ofJson : Decoder (Event Float) := fun place j => do
  let f ← Json.fields? [["kind"], ["payload"]] place j
  let kind ← f.required "kind" (kindOfJson j)
  let payload ← f.required "payload" fun _ payload => some payload
  let early := match j with
    | .object fields => payloadComesFirst fields
    | _ => false
  if early then
    if payload.isReadable f.place.room then payloadOfJson kind ⟨f.place.room, true⟩ payload
    else none
  else payloadOfJson kind f.place payload

end Event

namespace Trace

def toJson (trace : Trace Float) : Json := .list Event.toJson trace

def ofJson : Decoder (Trace Float) := .list Event.ofJson

end Trace

end LinearProgram
