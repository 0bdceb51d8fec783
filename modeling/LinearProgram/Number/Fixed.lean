import LinearProgram.Number.Exact

/-! # Fixed places

A value written with a fixed number of decimal places and never with an exponent. The exact value is
rounded, and a tie goes to the even digit.
-/

namespace LinearProgram

/-- The quotient rounded to the nearest natural number, a tie to the even one. -/
def roundQuotient (num den : Nat) : Nat :=
  let quotient := num / den
  let twice := 2 * (num % den)
  if den < twice ∨ (twice = den ∧ quotient % 2 = 1) then quotient + 1 else quotient

namespace Text

def padLeft (width : Nat) (s : String) : String :=
  "".pushn ' ' (width - s.length) ++ s

def padRight (width : Nat) (s : String) : String :=
  s ++ "".pushn ' ' (width - s.length)

/-- The characters up to the last one that differs from `c`. -/
def dropTrailing (c : Char) (cs : List Char) : List Char := (cs.reverse.dropWhile (· == c)).reverse

/-- Digits behind as many zeros as are missing to a width. -/
def zeroPadded (width : Nat) (digits : List Char) : String :=
  "".pushn '0' (width - digits.length) ++ String.ofList digits

/-- `n / 10 ^ places`, written with all its places. -/
def scaled (places n : Nat) : String :=
  if places = 0 then toString n
  else
    toString (n / Nat.pow 10 places) ++ "." ++
      zeroPadded places (Nat.toDigits 10 (n % Nat.pow 10 places))

end Text

/-- The value with `places` decimals. A negative value keeps its sign when it rounds to zero. -/
def Exact.fixed (places : Nat) : Exact → String
  | .finite negative num den =>
    (if negative then "-" else "") ++
      Text.scaled places (roundQuotient (num * Nat.pow 10 places) den)
  | .infinite negative => if negative then "-inf" else "inf"
  | .undefined => "NaN"

end LinearProgram
