import LinearProgram.Number.Exact

/-! # Decimals

Numbers as texts hold them: digits and a power of ten. `Decimal.toFloat` is the nearest double, and
`Decimal.ofFloat` has the fewest digits that read back as the same double.
-/

namespace LinearProgram

/-- The number `± digits · 10 ^ exponent`. -/
structure Decimal where
  negative : Bool
  digits : Nat
  exponent : Int
  deriving DecidableEq, Repr

namespace Decimal

/-- Doubles end below `10 ^ 309`, and half the least of them lies above `10 ^ -325`. -/
def magnitude (digits : Nat) (exponent : Int) : Float :=
  if digits = 0 then 0
  else
    let size : Int := (Nat.toDigits 10 digits).length + exponent
    if 310 < size then Float.ofBits 0x7FF0000000000000
    else if size < -330 then 0
    else Float.ofScientific digits (exponent < 0) exponent.natAbs

def toFloat (d : Decimal) : Float :=
  if d.negative then -magnitude d.digits d.exponent else magnitude d.digits d.exponent

/-- The power of ten at or below a positive fraction. -/
def leadingPower (num den : Nat) : Int :=
  if den ≤ num then (Nat.toDigits 10 (num / den)).length - 1
  else
    let k := (Nat.toDigits 10 (den / num)).length
    if den ≤ num * Nat.pow 10 (k - 1) then -((k - 1 : Nat) : Int) else -(k : Int)

/-- The multiples of `10 ^ exponent` next to a fraction, the nearer one first. -/
def neighbours (num den : Nat) (exponent : Int) : List Nat :=
  let n := num * Nat.pow 10 (-exponent).toNat
  let d := den * Nat.pow 10 exponent.toNat
  let low := n / d
  let rest := n % d
  if rest = 0 then [low]
  else if 2 * rest < d ∨ (2 * rest = d ∧ low % 2 = 0) then [low, low + 1]
  else [low + 1, low]

/-- The first decimal with one, two, … seventeen digits that reads back as `x`, whose value is
`num / den`. -/
def shortest? (x : Float) (num den : Nat) : Option (Nat × Int) :=
  let top := leadingPower num den
  (List.range 17).findSome? fun (k : Nat) =>
    let exponent := top - k
    ((neighbours num den exponent).find? fun digits => magnitude digits exponent == x).map
      (·, exponent)

/-- Moves the zeros at the end of the digits into the exponent. -/
def trimmed : Nat → Nat × Int → Nat × Int
  | 0, d => d
  | fuel + 1, (digits, exponent) =>
    if digits ≠ 0 ∧ digits % 10 = 0 then trimmed fuel (digits / 10, exponent + 1)
    else (digits, exponent)

/-- The fewest digits that read back as the double, the nearest such decimal among equals; nothing
for infinities and for what is not a number. -/
def ofFloat? (x : Float) : Option Decimal :=
  match Exact.ofFloat x with
  | .finite negative num den =>
    if num = 0 then some ⟨negative, 0, 0⟩
    else
      -- seventeen digits always suffice; all digits of the value would do as well
      let all := (num * Nat.pow 5 den.log2, -(den.log2 : Int))
      let (digits, exponent) := (shortest? x.abs num den).getD all
      let (digits, exponent) := trimmed (Nat.toDigits 10 digits).length (digits, exponent)
      some ⟨negative, digits, exponent⟩
  | _ => none

/-- Positional from `1e-5` up to but not including `1e16`, with at least one fractional digit;
otherwise one digit, a point if more follow, and a signed exponent. -/
def text (d : Decimal) : String :=
  let sign := if d.negative then "-" else ""
  if d.digits = 0 then sign ++ "0.0"
  else
    let digits := Nat.toDigits 10 d.digits
    let power := (digits.length : Int) - 1 + d.exponent
    if power < -5 ∨ 16 ≤ power then
      let fraction := digits.tail
      sign ++ String.ofList (digits.take 1) ++
        (if fraction.isEmpty then "" else "." ++ String.ofList fraction) ++
        (if power < 0 then "e-" else "e+") ++ toString power.natAbs
    else if power < 0 then
      sign ++ "0." ++ "".pushn '0' (power.natAbs - 1) ++ String.ofList digits
    else
      let lead := power.toNat + 1
      let fraction := digits.drop lead
      sign ++ String.ofList (digits.take lead) ++ "".pushn '0' (lead - digits.length) ++ "." ++
        (if fraction.isEmpty then "0" else String.ofList fraction)

end Decimal

end LinearProgram
