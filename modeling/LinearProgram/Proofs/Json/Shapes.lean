import LinearProgram.Proofs.Json.Records
import LinearProgram.Shape.Solution

/-! # Codecs of problems and solutions

The JSON of problems, of points and verdicts and of the snapshots of a tableau.
-/

namespace LinearProgram

open Json (Codec FieldsCodec)

def Sense.codec : Codec Sense := .named jsonNames toJson (by rintro ⟨⟩ <;> exact ⟨_, rfl, rfl⟩)

def Relation.codec : Codec Relation :=
  .named jsonNames toJson (by rintro ⟨⟩ <;> exact ⟨_, rfl, rfl⟩)

def Objective.codec : Codec (Objective Float) :=
  (FieldsCodec.cons "coefficients" Codec.float.list.required <|
    .cons "sense" Sense.codec.required .nil).record
    [["coefficients"], ["sense"]] toJson ofJson
    (fun o => (o.coefficients, o.sense, ())) (fun (coefficients, sense, _) => ⟨coefficients, sense⟩)
    (by decide) (fun _ => rfl) (fun _ _ => rfl) (fun _ => rfl) (fun _ => rfl)

def Constraint.codec : Codec (Constraint Float) :=
  (FieldsCodec.cons "coefficients" Codec.float.list.required <|
    .cons "relation" Relation.codec.required <| .cons "boundValue" Codec.float.required .nil).record
    [["coefficients"], ["relation"], ["boundValue", "bound"]] toJson ofJson
    (fun c => (c.coefficients, c.relation, c.bound, ()))
    (fun (coefficients, relation, bound, _) => ⟨coefficients, relation, bound⟩)
    (by decide) (fun _ => rfl) (fun _ _ => rfl) (fun _ => rfl) (fun _ => rfl)

def Problem.codec : Codec (Problem Float) :=
  (FieldsCodec.cons "objective" Objective.codec.required <|
    .cons "constraints" Constraint.codec.list.required .nil).record
    [["objective"], ["constraints"]] toJson ofJson
    (fun p => (p.objective, p.constraints, ()))
    (fun (objective, constraints, _) => ⟨objective, constraints⟩)
    (by decide) (fun _ => rfl) (fun _ _ => rfl) (fun _ => rfl) (fun _ => rfl)

example : Problem.codec.floats ⟨⟨[3.0, 2.0], .maximize⟩, [⟨[1.0, 0.5], .le, 4.0⟩]⟩ =
    [3.0, 2.0, 1.0, 0.5, 4.0] := rfl

def Status.codec : Codec Status := .named jsonNames toJson (by rintro ⟨⟩ <;> exact ⟨_, rfl, rfl⟩)

def Multiplicity.codec : Codec Multiplicity :=
  .named jsonNames toJson (by rintro ⟨⟩ <;> exact ⟨_, rfl, rfl⟩)

theorem Multiplicity.read_null (place : Json.Place) : codec.read place .null = none := rfl

def Discipline.codec : Codec Discipline :=
  .named jsonNames toJson (by rintro ⟨⟩ <;> exact ⟨_, rfl, rfl⟩)

def Point.codec : Codec (Point Float) :=
  Codec.float.list.copy toJson ofJson (fun p => [p.x, p.y])
    (fun | [x, y] => some ⟨x, y⟩ | _ => none) (fun _ => rfl) (fun _ _ => rfl) (fun _ => rfl) (by
      intro coordinates p h
      split at h <;> cases h
      rfl)

def Check.codec : Codec (Check Float) :=
  (FieldsCodec.cons "label" Codec.text.required <| .cons "lhs" Codec.float.required <|
    .cons "relation" Relation.codec.required <| .cons "bound" Codec.float.required <|
    .cons "satisfied" Codec.bool.required .nil).record
    [["label"], ["lhs"], ["relation"], ["bound"], ["satisfied"]] toJson ofJson
    (fun c => (c.label, c.lhs, c.relation, c.bound, c.satisfied, ()))
    (fun (label, lhs, relation, bound, satisfied, _) => ⟨label, lhs, relation, bound, satisfied⟩)
    (by decide) (fun _ => rfl) (fun _ _ => rfl) (fun _ => rfl) (fun _ => rfl)

def phaseCodec : Codec ℕ := .natural 256 (by decide)

def Snapshot.codec : Codec (Snapshot Float) :=
  (FieldsCodec.cons "phase" (phaseCodec.skipped fun _ => rfl) <|
    .cons "iteration" Codec.count.required <| .cons "columns" Codec.text.list.required <|
    .cons "grid" Codec.float.list.list.required <|
    .cons "basicVariables" Codec.text.list.required <|
    .cons "enteringColumn" (Codec.count.optional Codec.count_read_null) <|
    .cons "leavingRow" (Codec.count.optional Codec.count_read_null) <|
    .cons "pivotElement" (Codec.float.optional Codec.float_read_null) <|
    .cons "ratios" (Codec.float.option Codec.float_read_null).list.required <|
    .cons "description" Codec.text.required .nil).record
    [["phase"], ["iteration"], ["columns"], ["grid"], ["basicVariables"], ["enteringColumn"],
      ["leavingRow"], ["pivotElement"], ["ratios"], ["description"]] toJson ofJson
    (fun s => (s.phase, s.iteration, s.columns, s.grid, s.basicVariables, s.enteringColumn,
      s.leavingRow, s.pivotElement, s.ratios, s.description, ()))
    (fun (phase, iteration, columns, grid, basicVariables, enteringColumn, leavingRow, pivotElement,
      ratios, description, _) => ⟨phase, iteration, columns, grid, basicVariables, enteringColumn,
        leavingRow, pivotElement, ratios, description⟩)
    (by decide) (by rintro ⟨_ | _⟩ <;> rfl) (fun _ _ => rfl) (fun _ => rfl) (fun _ => rfl)

end LinearProgram
