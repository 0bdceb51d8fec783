import LinearProgram.Number.Digits

/-! # The order of variables

Names are compared by what stands before their trailing digits, then by the number these digits
spell, then as they are written. So `x2` comes before `x10`.
-/

namespace LinearProgram

namespace VariableOrder

/-- The digits at the end of a name. -/
def suffix (name : List Char) : List Char := (name.reverse.takeWhile Char.isDigit).reverse

/-- What stands before the digits at the end of a name. -/
def stem (name : List Char) : List Char := (name.reverse.dropWhile Char.isDigit).reverse

/-- The number that digits spell. No digits spell none, and neither do digits for a number that does
not fit into 64 bits. -/
def number? (digits : List Char) : Option Nat :=
  if digits.isEmpty || decide (wordBound ≤ Digits.value digits) then none
  else some (Digits.value digits)

/-- No number comes before every number. -/
def compare (a b : String) : Ordering :=
  (Ord.compare (String.ofList (stem a.toList)) (String.ofList (stem b.toList))).then
    ((Ord.compare (number? (suffix a.toList)) (number? (suffix b.toList))).then (Ord.compare a b))

/-- Puts a name into its place in an ordered list, unless it is there. -/
def insert (name : String) : List String → List String
  | [] => [name]
  | other :: rest =>
    match compare name other with
    | .lt => name :: other :: rest
    | .eq => other :: rest
    | .gt => other :: insert name rest

/-- The names in order, each once. -/
def sort (names : List String) : List String := names.foldr insert []

end VariableOrder

end LinearProgram
