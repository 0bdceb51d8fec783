import LinearProgram.Shape.Problem
import LinearProgram.Language.Compile

/-! # Programs in JSON

The tree of a problem text. Statements and expressions are objects whose only field names the kind.
-/

namespace LinearProgram

open Json (Decoder)

namespace Span

def toJson (s : Span) : Json := .record [("start", .natural s.start), ("end", .natural s.stop)]

def ofJson : Decoder Span := fun place j => do
  let f ← Json.fields? [["start"], ["end"]] place j
  let start ← f.required "start" .count
  let stop ← f.required "end" .count
  some ⟨start, stop⟩

end Span

namespace Operator

def jsonNames : List (String × Operator) :=
  [("Add", add), ("Sub", sub), ("Mul", mul), ("Div", div)]

def toJson : Operator → Json
  | add => .text "Add"
  | sub => .text "Sub"
  | mul => .text "Mul"
  | div => .text "Div"

def ofJson : Decoder Operator := .named jsonNames

end Operator

namespace Variable

def toJson (v : Variable) : Json := .record [("span", v.span.toJson), ("name", .text v.name)]

def ofJson : Decoder Variable := fun place j => do
  let f ← Json.fields? [["span"], ["name"]] place j
  let span ← f.required "span" Span.ofJson
  let name ← f.required "name" .text
  some ⟨span, name⟩

end Variable

namespace Expr

def toJson : Expr Float → Json
  | number x => .record [("Number", .float x)]
  | var v => .record [("Variable", v.toJson)]
  | neg e => .record [("Neg", e.toJson)]
  | paren e => .record [("Paren", e.toJson)]
  | binary left op right =>
    .record [("BinaryOp",
      .record [("left", left.toJson), ("op", op.toJson), ("right", right.toJson)])]

/-- Every expression opens a container, so the room for more of them bounds the depth. -/
def ofJsonWithin (early : Bool) : Nat → Json → Option (Expr Float)
  | 0, _ => none
  | room + 1, j => do
    let (inside, name, value) ← Json.Decoder.single ⟨room + 1, early⟩ j
    match name with
    | "Number" => (Json.Decoder.float inside value).map .number
    | "Variable" => (Variable.ofJson inside value).map .var
    | "Neg" => (ofJsonWithin early room value).map .neg
    | "Paren" => (ofJsonWithin early room value).map .paren
    | "BinaryOp" =>
      match room with
      | 0 => none
      | room + 1 => do
        let f ← Json.fields? [["left"], ["op"], ["right"]] ⟨room + 1, early⟩ value
        let left ← f.found.lookup "left"
        let left ← ofJsonWithin early room left
        let op ← f.required "op" Operator.ofJson
        let right ← f.found.lookup "right"
        let right ← ofJsonWithin early room right
        some (.binary left op right)
    | _ => none

def ofJson : Decoder (Expr Float) := fun place j => ofJsonWithin place.early place.room j

end Expr

namespace ObjectiveStatement

def toJson (o : ObjectiveStatement Float) : Json :=
  .record [("span", o.span.toJson), ("sense", o.sense.toJson), ("name", .option .text o.name),
    ("expr", o.expr.toJson)]

def ofJson : Decoder (ObjectiveStatement Float) := fun place j => do
  let f ← Json.fields? [["span"], ["sense"], ["name"], ["expr"]] place j
  let span ← f.required "span" Span.ofJson
  let sense ← f.required "sense" Sense.ofJson
  let name ← f.optional "name" .text
  let expr ← f.required "expr" Expr.ofJson
  some ⟨span, sense, name, expr⟩

end ObjectiveStatement

namespace ConstraintStatement

def toJson (c : ConstraintStatement Float) : Json :=
  .record [("span", c.span.toJson), ("lhs", c.lhs.toJson), ("relation", c.relation.toJson),
    ("rhs", c.rhs.toJson)]

def ofJson : Decoder (ConstraintStatement Float) := fun place j => do
  let f ← Json.fields? [["span"], ["lhs"], ["relation"], ["rhs"]] place j
  let span ← f.required "span" Span.ofJson
  let lhs ← f.required "lhs" Expr.ofJson
  let relation ← f.required "relation" Relation.ofJson
  let rhs ← f.required "rhs" Expr.ofJson
  some ⟨span, lhs, relation, rhs⟩

end ConstraintStatement

namespace Statement

def toJson : Statement Float → Json
  | objective o => .record [("Objective", o.toJson)]
  | constraint c => .record [("Constraint", c.toJson)]

def ofJson : Decoder (Statement Float) := fun place j => do
  let (inside, name, value) ← Json.Decoder.single place j
  match name with
  | "Objective" => (ObjectiveStatement.ofJson inside value).map .objective
  | "Constraint" => (ConstraintStatement.ofJson inside value).map .constraint
  | _ => none

end Statement

namespace Program

def toJson (p : Program Float) : Json :=
  .record [("statements", .list Statement.toJson p.statements)]

def ofJson : Decoder (Program Float) := fun place j => do
  let f ← Json.fields? [["statements"]] place j
  let statements ← f.required "statements" (.list Statement.ofJson)
  some ⟨statements⟩

end Program

namespace LinearForm

def toJson (f : LinearForm Float) : Json :=
  .record [("terms", .record (f.terms.entries.map fun (name, c) => (name, .float c))),
    ("constant", .float f.constant)]

def ofJson : Decoder (LinearForm Float) := fun place j => do
  let f ← Json.fields? [["terms"], ["constant"]] place j
  let entries ← f.required "terms" (.entries .float)
  let constant ← f.required "constant" .float
  some ⟨.ofList entries, constant⟩

end LinearForm

namespace CompiledProblem

def toJson (c : CompiledProblem Float) : Json :=
  .record [("variables", .list .text c.names),
    ("objective_name", .option .text c.objectiveName), ("problem", c.problem.toJson)]

def ofJson : Decoder (CompiledProblem Float) := fun place j => do
  let f ← Json.fields? [["variables"], ["objective_name"], ["problem"]] place j
  let names ← f.required "variables" (.list .text)
  let objectiveName ← f.optional "objective_name" .text
  let problem ← f.required "problem" Problem.ofJson
  some ⟨names, objectiveName, problem⟩

end CompiledProblem

end LinearProgram
