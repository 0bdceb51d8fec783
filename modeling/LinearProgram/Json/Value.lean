import LinearProgram.Json.Numeral

/-! # JSON values

Values as their texts hold them: objects keep the order and the repetitions of their keys.
-/

namespace LinearProgram

/-- A string or key is none when its escapes leave a surrogate unpaired: such a text is JSON, but no
string of characters. -/
inductive Json where
  | null
  | bool (b : Bool)
  | number (n : Json.Number)
  | string (s : Option String)
  | array (elements : List Json)
  | object (fields : List (Option String × Json))

namespace Json

def text (s : String) : Json := .string (some s)

def natural (n : Nat) : Json := .number (.natural n)

/-- A double; one that is not finite has no number and is null. -/
def float (x : Float) : Json := if x.isFinite then .number (.float x) else .null

def list {β : Type} (f : β → Json) (xs : List β) : Json := .array (xs.map f)

def option {β : Type} (f : β → Json) : Option β → Json
  | some x => f x
  | none => .null

/-- An object from its fields in order. -/
def record (fields : List (String × Json)) : Json :=
  .object (fields.map fun (name, value) => (some name, value))

/-- The value of a field of an object, the last one of that name. -/
def field? (j : Json) (name : String) : Option Json :=
  match j with
  | object fields => fields.reverse.lookup (some name)
  | _ => none

end Json

end LinearProgram
