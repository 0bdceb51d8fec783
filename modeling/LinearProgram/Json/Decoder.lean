import LinearProgram.Json.Value

/-! # Decoding JSON values

Readers of typed values, built from readers of their parts. Containers may nest to a limited depth,
except inside fields that nobody asks for, which are passed over unread.
-/

namespace LinearProgram

namespace Json

/-- Where a value stands: how many containers may still be opened, and whether the value is part of
one that was read whole before anything was asked of it. -/
structure Place where
  room : Nat
  early : Bool
  deriving DecidableEq, Repr

/-- The place of the values in a container. -/
def Place.inside? (p : Place) : Option Place :=
  match p.room with
  | 0 => none
  | room + 1 => some { p with room := room }

/-- Reads a value at its place. -/
abbrev Decoder (β : Type) := Place → Json → Option β

/-- How deep containers may nest. -/
def depthLimit : Nat := 127

def decode? {β : Type} (decoder : Decoder β) (j : Json) : Option β := decoder ⟨depthLimit, false⟩ j

namespace Decoder

variable {β : Type}

def bool : Decoder Bool
  | _, .bool b => some b
  | _, _ => none

def text : Decoder String
  | _, .string s => s
  | _, _ => none

/-- Any number whose double is finite. -/
def float : Decoder Float
  | _, .number n => if n.toFloat.isFinite then some n.toFloat else none
  | _, _ => none

/-- A natural number below a bound. -/
def natural (bound : Nat) : Decoder Nat
  | _, .number (.natural n) => if n < bound then some n else none
  | _, _ => none

/-- A position or a number of things, of 64 bits. -/
def count : Decoder Nat := natural wordBound

def list (element : Decoder β) : Decoder (List β)
  | place, .array elements => do
    let inside ← place.inside?
    elements.mapM (element inside)
  | _, _ => none

/-- Null stands for nothing. -/
def optional (decoder : Decoder β) : Decoder (Option β)
  | _, .null => some none
  | place, j => (decoder place j).map some

/-- An object with exactly one field, and the place of its value. -/
def single : Decoder (Place × String × Json)
  | place, .object [(some name, value)] => do
    let inside ← place.inside?
    some (inside, name, value)
  | _, _ => none

/-- Whether a value says nothing: a null, or an empty object in what was read early. -/
def isUnit (place : Place) : Json → Bool
  | .null => true
  | .object [] => place.early
  | _ => false

/-- One of some named values: its name, or an object that gives the name nothing. -/
def named (names : List (String × β)) : Decoder β
  | _, .string s => s.bind fun name => names.lookup name
  | place, j => do
    let (inside, name, value) ← single place j
    if isUnit inside value then names.lookup name else none

/-- An object read as a map; the last field of a name counts. -/
def entries (value : Decoder β) : Decoder (List (String × β))
  | place, .object fields => do
    let inside ← place.inside?
    fields.mapM fun (name, j) => do
      let name ← name
      let x ← value inside j
      some (name, x)
  | _, _ => none

end Decoder

/-- The fields found in a record, by their first names, and the place of their values. -/
structure Fields where
  found : List (String × Json)
  place : Place

/-- The first of a field's names, if this is one of them. -/
def fieldNamed? (names : List (List String)) (name : String) : Option String :=
  (names.find? (·.contains name)).bind List.head?

/-- Collects the fields that have a name; none of them may be repeated, others are passed over. -/
def collect (names : List (List String)) (found : List (String × Json)) :
    List (Option String × Json) → Option (List (String × Json))
  | [] => some found
  | (none, _) :: _ => none
  | (some name, j) :: rest =>
    match fieldNamed? names name with
    | none => collect names found rest
    | some first =>
      if (found.lookup first).isSome then none else collect names (found ++ [(first, j)]) rest

/-- A record: an object with the named fields in any order, or an array of exactly all of them in
order. Every field is given with its other names behind it. -/
def fields? (names : List (List String)) : Decoder Fields
  | place, .object fields => do
    let inside ← place.inside?
    (collect names [] fields).map (⟨·, inside⟩)
  | place, .array elements => do
    let inside ← place.inside?
    if elements.length = names.length then
      some ⟨(names.map (·.headD "")).zip elements, inside⟩
    else none
  | _, _ => none

namespace Fields

variable {β : Type}

def required (f : Fields) (name : String) (decoder : Decoder β) : Option β :=
  (f.found.lookup name).bind (decoder f.place)

/-- A field that may be missing. -/
def optional (f : Fields) (name : String) (decoder : Decoder β) : Option (Option β) :=
  match f.found.lookup name with
  | none => some none
  | some j => decoder.optional f.place j

end Fields

mutual

/-- Whether a value could be read whole: its strings are strings of characters, its numbers have
finite doubles, and it does not nest too deep. -/
def isReadable (room : Nat) : Json → Bool
  | null => true
  | bool _ => true
  | number n => n.toFloat.isFinite
  | string s => s.isSome
  | array elements => decide (0 < room) && areReadable (room - 1) elements
  | object fields => decide (0 < room) && fieldsReadable (room - 1) fields

def areReadable (room : Nat) : List Json → Bool
  | [] => true
  | j :: rest => isReadable room j && areReadable room rest

def fieldsReadable (room : Nat) : List (Option String × Json) → Bool
  | [] => true
  | (name, j) :: rest => name.isSome && isReadable room j && fieldsReadable room rest

end

end Json

end LinearProgram
