import LinearProgram.Number.Decimal
import LinearProgram.Number.Digits

/-! # Numerals

Numbers as JSON texts spell them, and the numbers they are read as. A numeral of digits alone that
fits into 64 bits is a natural number, every other numeral a double. There are two ways to find the
double: the nearest one, and a quick one that rounds up to three times and may miss the nearest.
-/

namespace LinearProgram

namespace Json

/-- A sign and digits before the point, behind it and in the exponent. -/
structure Numeral where
  negative : Bool
  whole : List Char
  fraction : List Char
  exponent : Option Int
  deriving DecidableEq, Repr

inductive Number where
  | natural (n : Nat)
  | float (x : Float)
  deriving DecidableEq, Repr

/-- Appends digits to a number as long as it fits into 64 bits; the digits that are left. -/
def appendDigits (n : Nat) : List Char → Nat × List Char
  | [] => (n, [])
  | d :: rest =>
    let next := 10 * n + Digits.value [d]
    if next < wordBound then appendDigits next rest else (n, d :: rest)

def powerOfTen (n : Nat) : Float := Float.ofScientific 1 false n

/-- The greatest power of ten that is a double. -/
def greatestPower : Nat := 308

/-- Divides by `10 ^ n`, in several steps if that is no double. -/
def divideByPower (x : Float) (n : Nat) : Float :=
  if n ≤ greatestPower then x / powerOfTen n
  else if x == 0 then x
  else divideByPower (x / powerOfTen greatestPower) (n - greatestPower)
termination_by n
decreasing_by
  simp only [greatestPower] at *
  omega

def multiplyByPower (x : Float) (n : Nat) : Float :=
  if n ≤ greatestPower then x * powerOfTen n
  else if x == 0 then x
  else Float.ofBits 0x7FF0000000000000

def scaleByPower (x : Float) (exponent : Int) : Float :=
  if exponent < 0 then divideByPower x exponent.natAbs else multiplyByPower x exponent.natAbs

namespace Numeral

/-- The first digits, as many as fit into 64 bits, and the power of ten that belongs to them. Digits
before the point that are left over raise the power, those behind it do not count. -/
def significand (q : Numeral) : Nat × Int :=
  let (n, dropped) := appendDigits 0 q.whole
  let (n, left) := appendDigits n q.fraction
  (n, dropped.length - (q.fraction.length - left.length : Nat) + q.exponent.getD 0)

/-- The first digits as a double, times or by their power of ten. -/
def quick (q : Numeral) : Float :=
  let (n, exponent) := q.significand
  let x := scaleByPower n.toUInt64.toFloat exponent
  if q.negative then -x else x

def decimal (q : Numeral) : Decimal :=
  ⟨q.negative, Digits.value (q.whole ++ q.fraction), q.exponent.getD 0 - q.fraction.length⟩

def nearest (q : Numeral) : Float := q.decimal.toFloat

/-- The number that a numeral is read as, given how it would be read as a double. -/
def number (round : Numeral → Float) (q : Numeral) : Number :=
  let n := Digits.value q.whole
  if !q.negative && q.fraction.isEmpty && q.exponent.isNone && decide (n < wordBound) then
    .natural n
  else .float (round q)

end Numeral

namespace Number

def toFloat : Number → Float
  | natural n => n.toUInt64.toFloat
  | float x => x

/-- Digits for a natural number, the decimal with the fewest digits for a double. -/
def text : Number → String
  | natural n => toString n
  | float x =>
    match Decimal.ofFloat? x with
    | some d => d.text
    | none => "null"

end Number

end Json

end LinearProgram
