import LinearProgram.Json.Decoder
import LinearProgram.Problem.Basic
import LinearProgram.Problem.Text

/-! # Problems in JSON

A problem is `objective` and `constraints`; senses and relations have short names besides those they
are written with.
-/

namespace LinearProgram

open Json (Decoder)

namespace Sense

def jsonNames : List (String × Sense) :=
  [("maximize", maximize), ("max", maximize), ("minimize", minimize), ("min", minimize)]

def toJson : Sense → Json
  | maximize => .text "maximize"
  | minimize => .text "minimize"

def ofJson : Decoder Sense := .named jsonNames

end Sense

namespace Relation

def jsonNames : List (String × Relation) :=
  [("<=", le), ("≤", le), ("le", le), (">=", ge), ("≥", ge), ("ge", ge), ("=", eq), ("==", eq),
    ("eq", eq)]

def toJson (r : Relation) : Json := .text r.symbol

def ofJson : Decoder Relation := .named jsonNames

end Relation

namespace Objective

def toJson (o : Objective Float) : Json :=
  .record [("coefficients", .list .float o.coefficients), ("sense", o.sense.toJson)]

def ofJson : Decoder (Objective Float) := fun place j => do
  let f ← Json.fields? [["coefficients"], ["sense"]] place j
  let coefficients ← f.required "coefficients" (.list .float)
  let sense ← f.required "sense" Sense.ofJson
  some ⟨coefficients, sense⟩

end Objective

namespace Constraint

def toJson (c : Constraint Float) : Json :=
  .record [("coefficients", .list .float c.coefficients), ("relation", c.relation.toJson),
    ("boundValue", .float c.bound)]

def ofJson : Decoder (Constraint Float) := fun place j => do
  let f ← Json.fields? [["coefficients"], ["relation"], ["boundValue", "bound"]] place j
  let coefficients ← f.required "coefficients" (.list .float)
  let relation ← f.required "relation" Relation.ofJson
  let bound ← f.required "boundValue" .float
  some ⟨coefficients, relation, bound⟩

end Constraint

namespace Problem

def toJson (p : Problem Float) : Json :=
  .record
    [("objective", p.objective.toJson), ("constraints", .list Constraint.toJson p.constraints)]

def ofJson : Decoder (Problem Float) := fun place j => do
  let f ← Json.fields? [["objective"], ["constraints"]] place j
  let objective ← f.required "objective" Objective.ofJson
  let constraints ← f.required "constraints" (.list Constraint.ofJson)
  some ⟨objective, constraints⟩

end Problem

end LinearProgram
