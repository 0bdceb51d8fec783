import LinearProgram.Number.Decimal
import LinearProgram.Number.Digits

/-! # Doubles as arguments

The texts that name a double: a sign, then digits with a point and an exponent, or a word for an
infinity or for what is not a number, in any case.
-/

namespace LinearProgram

namespace FloatText

/-- Digits with at most one point and an exponent behind them. Either side of the point may be
empty, but not both. -/
def decimal? (negative : Bool) (cs : List Char) : Option Decimal := do
  let whole := cs.takeWhile Char.isDigit
  let rest := cs.dropWhile Char.isDigit
  let (fraction, rest) := match rest with
    | '.' :: rest => (rest.takeWhile Char.isDigit, rest.dropWhile Char.isDigit)
    | _ => ([], rest)
  if whole.isEmpty && fraction.isEmpty then none
  let (exponent, rest) ← Digits.exponent? rest
  if rest.isEmpty then
    some ⟨negative, Digits.value (whole ++ fraction), exponent.getD 0 - fraction.length⟩
  else none

def word? (negative : Bool) (cs : List Char) : Option Float :=
  let word := String.ofList (cs.map Char.toLower)
  if word = "inf" ∨ word = "infinity" then
    some (if negative then Float.ofBits 0xFFF0000000000000 else Float.ofBits 0x7FF0000000000000)
  else if word = "nan" then some (Float.ofBits 0x7FF8000000000000)
  else none

def read? (s : String) : Option Float :=
  let (negative, cs) := Digits.sign s.toList
  match decimal? negative cs with
  | some d => some d.toFloat
  | none => word? negative cs

end FloatText

end LinearProgram
