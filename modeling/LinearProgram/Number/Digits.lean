/-! # Digits

The parts of numbers that several notations share: the value of a run of digits, a sign and an
exponent, and the bound of the numbers of 64 bits. A reader never leaves more than it was given.
-/

namespace LinearProgram

/-- The least number that does not fit into 64 bits. -/
def wordBound : Nat := 18446744073709551616

namespace Digits

/-- The value of a run of decimal digits. -/
def value (ds : List Char) : Nat := ds.foldl (fun n c => 10 * n + (c.toNat - '0'.toNat)) 0

/-- Whether a minus stands in front, and what follows the sign. -/
def sign : List Char → Bool × List Char
  | '-' :: rest => (true, rest)
  | '+' :: rest => (false, rest)
  | rest => (false, rest)

/-- A signed exponent behind its letter, if there is one; none if the letter has no digits. -/
def exponent? : List Char → Option (Option Int × List Char)
  | [] => some (none, [])
  | c :: rest =>
    if c = 'e' ∨ c = 'E' then
      let (negative, rest) := sign rest
      let digits := rest.takeWhile Char.isDigit
      let n : Int := value digits
      if digits.isEmpty then none
      else some (some (if negative then -n else n), rest.dropWhile Char.isDigit)
    else some (none, c :: rest)

theorem length_dropWhile_lt (p : Char → Bool) (cs : List Char)
    (h : (cs.takeWhile p).isEmpty = false) : (cs.dropWhile p).length < cs.length := by
  have hne : cs.takeWhile p ≠ [] := by simpa using h
  have hlen := congrArg List.length (List.takeWhile_append_dropWhile (p := p) (l := cs))
  have hpos := List.length_pos_iff.2 hne
  rw [List.length_append] at hlen
  omega

theorem length_sign_le (cs : List Char) : (sign cs).2.length ≤ cs.length := by
  unfold sign
  split <;> simp

theorem length_exponent_le {cs rest : List Char} {n : Option Int}
    (h : exponent? cs = some (n, rest)) : rest.length ≤ cs.length := by
  unfold exponent? at h
  split at h
  · cases h
    exact Nat.le_refl _
  · next c tail =>
    split at h
    · dsimp only at h
      split at h
      · simp at h
      · cases h
        have h1 := (List.dropWhile_sublist Char.isDigit (l := (sign tail).2)).length_le
        have h2 := length_sign_le tail
        simp only [List.length_cons]
        omega
    · cases h
      exact Nat.le_refl _

end Digits

end LinearProgram
