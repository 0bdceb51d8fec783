/-! # Exact values

Every printed number is rounded from the exact value it stands for, so the value is kept as a
signed fraction. A double is decoded from its bits; nothing is lost.
-/

namespace LinearProgram

/-- The value a scalar stands for. A zero may carry a sign. -/
inductive Exact where
  | finite (negative : Bool) (num den : Nat)
  | infinite (negative : Bool)
  | undefined
  deriving DecidableEq, Repr

namespace Exact

def isFinite : Exact → Bool
  | finite .. => true
  | _ => false

/-- The whole number it is, if it is one. -/
def whole? : Exact → Option Int
  | finite negative num den =>
    if num % den = 0 then some (if negative then -(num / den : Nat) else (num / den : Nat))
    else none
  | _ => none

def ofRat (q : Rat) : Exact :=
  .finite (q.num < 0) q.num.natAbs q.den

/-- A double is `± m · 2 ^ e`, an infinity or not a number, as its sign, exponent and fraction bits
say. -/
def ofFloat (x : Float) : Exact :=
  let bits := x.toBits.toNat
  let negative := bits >>> 63 == 1
  let exponent := (bits >>> 52) % 2048
  let fraction := bits % Nat.pow 2 52
  if exponent = 2047 then
    if fraction = 0 then .infinite negative else .undefined
  else if exponent = 0 then
    .finite negative fraction (Nat.pow 2 1074)
  else if 1075 ≤ exponent then
    .finite negative ((Nat.pow 2 52 + fraction) * Nat.pow 2 (exponent - 1075)) 1
  else
    .finite negative (Nat.pow 2 52 + fraction) (Nat.pow 2 (1075 - exponent))

end Exact

end LinearProgram
