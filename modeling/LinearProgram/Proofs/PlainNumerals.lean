import LinearProgram.Number.FloatText
import LinearProgram.Proofs.Digits
import LinearProgram.Proofs.Double.Exact
import LinearProgram.Proofs.Double.Numeral
import LinearProgram.Proofs.Tokens
import Mathlib.Data.List.DropRight

/-! # How numbers are written and read

A number is written with digits, a minus in front of it if it is negative, and at most four decimal
places. The language reads the digits as the number that an argument with the same text names.
-/

namespace LinearProgram

/-- Digits, and digits behind a point if there are any. -/
structure PlainNumeral where
  whole : List Char
  fraction : List Char
  whole_ne_nil : whole ≠ []
  isDigit_whole : ∀ c ∈ whole, c.isDigit = true
  isDigit_fraction : ∀ c ∈ fraction, c.isDigit = true
  length_fraction : fraction.length ≤ 22

namespace PlainNumeral

/-- The point before decimal places, which is left out if there are none. -/
def pointed : List Char → List Char
  | [] => []
  | d :: ds => '.' :: d :: ds

def chars (n : PlainNumeral) : List Char := n.whole ++ pointed n.fraction

def ofNat (n : ℕ) : PlainNumeral where
  whole := Nat.toDigits 10 n
  fraction := []
  whole_ne_nil := Nat.toDigits_ne_nil
  isDigit_whole := fun _ hc => Nat.isDigit_of_mem_toDigits (by decide) (by decide) hc
  isDigit_fraction := nofun
  length_fraction := Nat.zero_le _

theorem chars_ofNat (n : ℕ) : (ofNat n).chars = (toString n).toList := by
  rw [Nat.toString_eq_repr, Nat.toList_repr]
  exact List.append_nil _

end PlainNumeral

namespace Text

section DropTrailing

variable {c d : Char} {front back : List Char}

theorem dropTrailing_eq (c : Char) (cs : List Char) :
    dropTrailing c cs = cs.rdropWhile (· == c) := rfl

/-- Nothing is dropped before a character that stays. -/
theorem dropTrailing_append_cons (h : d ≠ c) :
    dropTrailing c (front ++ d :: back) = front ++ d :: dropTrailing c back := by
  have hd : (d == c) = false := beq_eq_false_iff_ne.mpr h
  induction back using List.reverseRecOn with
  | nil =>
    rw [dropTrailing_eq, List.rdropWhile_concat_neg _ _ _ (by simp [hd])]
    rfl
  | append_singleton back e ih =>
    have hassoc : front ++ d :: (back ++ [e]) = (front ++ d :: back) ++ [e] := by simp
    rw [hassoc, dropTrailing_eq, dropTrailing_eq]
    by_cases he : (e == c) = true
    · rw [List.rdropWhile_concat_pos (· == c) _ _ he, List.rdropWhile_concat_pos (· == c) _ _ he]
      exact ih
    · rw [List.rdropWhile_concat_neg (· == c) _ _ he, List.rdropWhile_concat_neg (· == c) _ _ he,
        ← hassoc]

theorem dropTrailing_of_notMem (hne : back ≠ []) (h : c ∉ back) :
    dropTrailing c (front ++ back) = front ++ back := by
  rw [dropTrailing_eq, List.rdropWhile_eq_self_iff]
  intro _ hlast
  rw [List.getLast_append_of_ne_nil _ hne, beq_iff_eq] at hlast
  exact h (hlast ▸ List.getLast_mem hne)

/-- A point stays if anything is behind it. -/
theorem dropTrailing_point {whole fraction : List Char} (hne : whole ≠ []) (hwhole : '.' ∉ whole)
    (hfraction : '.' ∉ fraction) :
    dropTrailing '.' (front ++ whole ++ '.' :: fraction) =
      front ++ (whole ++ PlainNumeral.pointed fraction) := by
  cases fraction with
  | nil =>
    have hdrop := List.rdropWhile_concat_pos (· == '.') (front ++ whole) '.' rfl
    refine hdrop.trans ((dropTrailing_of_notMem hne hwhole).trans ?_)
    rw [PlainNumeral.pointed, List.append_nil]
  | cons d ds =>
    have hassoc : front ++ whole ++ '.' :: d :: ds = (front ++ whole ++ ['.']) ++ d :: ds := by
      simp
    rw [hassoc, dropTrailing_of_notMem (List.cons_ne_nil d ds) hfraction, ← hassoc,
      List.append_assoc]
    rfl

end DropTrailing

/-- A number with four places keeps those of them that do not end in zeros. -/
theorem exists_dropTrailing_scaled (front : List Char) (n : ℕ) : ∃ numeral : PlainNumeral,
    dropTrailing '.' (dropTrailing '0' (front ++ (scaled 4 n).toList)) =
      front ++ numeral.chars := by
  let whole := Nat.toDigits 10 (n / Nat.pow 10 4)
  let rest := Nat.toDigits 10 (n % Nat.pow 10 4)
  let places := List.replicate (4 - rest.length) '0' ++ rest
  have htext : (scaled 4 n).toList = whole ++ '.' :: places := by
    rw [scaled, if_neg (by decide), String.toList_append, String.toList_append,
      Nat.toString_eq_repr, Nat.toList_repr, toList_zeroPadded, List.append_assoc]
    rfl
  have hwhole : ∀ c ∈ whole, c.isDigit = true := fun c hc =>
    Nat.isDigit_of_mem_toDigits (by decide) (by decide) hc
  have hplaces : ∀ c ∈ places, c.isDigit = true := by
    intro c hc
    rcases List.mem_append.mp hc with hc | hc
    · rw [List.eq_of_mem_replicate hc]
      rfl
    · exact Nat.isDigit_of_mem_toDigits (by decide) (by decide) hc
  have hlength : places.length ≤ 22 := by
    have hrest : rest.length ≤ 4 := (Nat.length_toDigits_le_iff (by decide) (by decide)).mpr
      (Nat.mod_lt _ (by decide))
    rw [List.length_append, List.length_replicate]
    omega
  have hshorter : dropTrailing '0' places <+: places :=
    List.rdropWhile_prefix _ _
  let numeral : PlainNumeral :=
    { whole := whole
      fraction := dropTrailing '0' places
      whole_ne_nil := Nat.toDigits_ne_nil
      isDigit_whole := hwhole
      isDigit_fraction := fun c hc => hplaces c (hshorter.subset hc)
      length_fraction := hshorter.length_le.trans hlength }
  have hpoint : ∀ ds : List Char, (∀ c ∈ ds, c.isDigit = true) → '.' ∉ ds := by
    intro ds h hmem
    exact absurd (h '.' hmem) (by decide)
  refine ⟨numeral, ?_⟩
  rw [htext, ← List.append_assoc, dropTrailing_append_cons (by decide)]
  exact dropTrailing_point numeral.whole_ne_nil (hpoint whole hwhole)
    (hpoint _ numeral.isDigit_fraction)

end Text

namespace Scalar

variable {α : Type} [Scalar α] {x : α}

/-- A finite number is written as a numeral, perhaps with a minus if it has one. -/
theorem exists_compact {negative : Bool} {num den : ℕ} (hx : exact x = .finite negative num den) :
    ∃ n : PlainNumeral, (compact x).toList = n.chars ∨
      negative = true ∧ (compact x).toList = '-' :: n.chars := by
  rw [compact]
  split
  · next k hk =>
    have hwhole : k = if negative then -((num / den : ℕ) : ℤ) else (num / den : ℕ) := by
      split at hk
      · rw [hx, Exact.whole?] at hk
        split at hk
        · exact (Option.some.inj hk).symm
        · cases hk
      · cases hk
    cases k with
    | ofNat k => exact ⟨.ofNat k, Or.inl (PlainNumeral.chars_ofNat k).symm⟩
    | negSucc k =>
      refine ⟨.ofNat (k + 1), Or.inr ⟨?_, ?_⟩⟩
      · cases negative with
        | true => rfl
        | false => cases hwhole
      · have htext : toString (Int.negSucc k) = "-" ++ toString (k + 1) := rfl
        rw [PlainNumeral.chars_ofNat, htext, String.toList_append]
        rfl
  · rw [fixed, hx, Exact.fixed, String.toList_append]
    obtain ⟨n, hn⟩ := Text.exists_dropTrailing_scaled (if negative then "-" else "").toList
      (roundQuotient (num * Nat.pow 10 4) den)
    rw [hn, String.toList_ofList]
    cases negative with
    | true => exact ⟨n, Or.inr ⟨rfl, rfl⟩⟩
    | false => exact ⟨n, Or.inl rfl⟩

end Scalar

namespace PlainNumeral

variable (n : PlainNumeral)

theorem exists_cons : ∃ d ds, n.chars = d :: ds ∧ d.isDigit = true := by
  obtain ⟨d, ds, hwhole⟩ := List.exists_cons_of_ne_nil n.whole_ne_nil
  refine ⟨d, ds ++ pointed n.fraction, ?_, n.isDigit_whole d (hwhole ▸ List.mem_cons_self)⟩
  rw [chars, hwhole, List.cons_append]

theorem takeWhile_chars : n.chars.takeWhile Char.isDigit = n.whole ∧
    n.chars.dropWhile Char.isDigit = pointed n.fraction := by
  rw [chars, List.takeWhile_append_of_pos n.isDigit_whole,
    List.dropWhile_append_of_pos n.isDigit_whole]
  cases n.fraction with
  | nil => exact ⟨List.append_nil _, rfl⟩
  | cons d ds => exact ⟨List.append_nil _, rfl⟩

/-- The number that an argument names with the numeral. -/
theorem decimal?_chars (negative : Bool) : FloatText.decimal? negative n.chars =
    some ⟨negative, Digits.value (n.whole ++ n.fraction), -(n.fraction.length : ℤ)⟩ := by
  obtain ⟨hwhole, hrest⟩ := n.takeWhile_chars
  have hnonempty : n.whole.isEmpty = false := List.isEmpty_eq_false_iff.mpr n.whole_ne_nil
  have hfraction := n.isDigit_fraction
  rw [FloatText.decimal?, hwhole, hrest]
  generalize n.fraction = fraction at hfraction
  cases fraction with
  | nil => simp [pointed, hnonempty, Digits.exponent?]
  | cons d ds =>
    have htake := List.takeWhile_eq_self_iff.mpr hfraction
    have hdrop := List.dropWhile_eq_nil_iff.mpr hfraction
    simp only [pointed]
    rw [htake, hdrop]
    simp [hnonempty, Digits.exponent?]

theorem read?_chars {s : String} (hs : s.toList = n.chars) : FloatText.read? s =
    some (Decimal.magnitude (Digits.value (n.whole ++ n.fraction)) (-(n.fraction.length : ℤ))) := by
  obtain ⟨d, ds, hchars, hd⟩ := n.exists_cons
  have hsign : Digits.sign n.chars = (false, n.chars) := by
    rw [hchars, Digits.sign]
    all_goals
      rintro rest h
      obtain ⟨rfl, -⟩ := List.cons.inj h
      cases hd
  rw [FloatText.read?, hs, hsign]
  dsimp only
  rw [decimal?_chars]
  rfl

theorem read?_neg_chars {s : String} (hs : s.toList = '-' :: n.chars) :
    FloatText.read? s = some (-Decimal.magnitude (Digits.value (n.whole ++ n.fraction))
      (-(n.fraction.length : ℤ))) := by
  rw [FloatText.read?, hs, Digits.sign]
  dsimp only
  rw [decimal?_chars]
  rfl

/-- The number that the language reads from the numeral. -/
theorem numeral_chars : (Grammar.numeral (String.ofList n.chars) : Float) =
    Float.ofScientific (Digits.value (n.whole ++ n.fraction)) true n.fraction.length := by
  have hplain : ∀ ds : List Char, (∀ c ∈ ds, c.isDigit = true) → ds.filter Char.isDigit = ds :=
    fun ds h => List.filter_eq_self.mpr h
  have hfraction := n.isDigit_fraction
  rw [Grammar.numeral, String.toList_ofList, chars, List.filter_append, hplain _ n.isDigit_whole,
    Parser.dropWhile_ne_point n.isDigit_whole]
  generalize n.fraction = fraction at hfraction
  cases fraction with
  | nil => rfl
  | cons d ds =>
    have hpoint : ('.' :: d :: ds).filter Char.isDigit = d :: ds :=
      (List.filter_cons_of_neg (by decide)).trans (hplain _ hfraction)
    rw [pointed, hpoint]
    rfl

end PlainNumeral

section Doubles

open Double

namespace Scalar

/-- The text of a number names it. -/
def readsBack (x : Float) : Bool := (FloatText.read? (compact x)).any (· == x)

variable {x : Float}

theorem hasValue_numeral {n : PlainNumeral}
    (h : (Decimal.magnitude (Digits.value (n.whole ++ n.fraction))
      (-(n.fraction.length : ℤ))).isFinite = true) :
    HasValue (Grammar.numeral (String.ofList n.chars)) (value (Decimal.magnitude
      (Digits.value (n.whole ++ n.fraction)) (-(n.fraction.length : ℤ)))) := by
  rw [n.numeral_chars]
  exact hasValue_ofScientific n.length_fraction h

/-- The language reads the digits of a number whose text names it as its magnitude. -/
theorem exists_numeral (hx : x.isFinite = true) (h : readsBack x = true) : ∃ n : PlainNumeral,
    (compact x).toList = n.chars ∧ HasValue (Grammar.numeral (String.ofList n.chars)) (value x) ∨
      (compact x).toList = '-' :: n.chars ∧
        HasValue (Grammar.numeral (String.ofList n.chars)) (-value x) := by
  obtain ⟨negative, num, den, hexact⟩ := exists_exact hx
  obtain ⟨n, hn | ⟨-, hn⟩⟩ := exists_compact hexact
  · rw [readsBack, n.read?_chars hn, Option.any_some, beq_iff_value hx] at h
    rw [← h.2]
    exact ⟨n, Or.inl ⟨hn, hasValue_numeral h.1⟩⟩
  · rw [readsBack, n.read?_neg_chars hn, Option.any_some, beq_iff_value hx] at h
    have hmagnitude := isFinite_of_neg h.1
    rw [← h.2, (isFinite_neg hmagnitude).2, neg_neg]
    exact ⟨n, Or.inr ⟨hn, hasValue_numeral hmagnitude⟩⟩

/-- A magnitude is written without a minus. -/
theorem exists_numeral_abs (hx : x.isFinite = true) (h : readsBack x.abs = true) :
    ∃ n : PlainNumeral, (compact x.abs).toList = n.chars ∧
      HasValue (Grammar.numeral (String.ofList n.chars)) |value x| := by
  obtain ⟨habs, hvalue⟩ := isFinite_abs hx
  obtain ⟨num, den, hexact⟩ := exact_abs hx
  obtain ⟨n, hn | ⟨htrue, -⟩⟩ := exists_compact (x := x.abs) hexact
  · rw [readsBack, n.read?_chars hn, Option.any_some, beq_iff_value habs] at h
    rw [← hvalue, ← h.2]
    exact ⟨n, hn, hasValue_numeral h.1⟩
  · cases htrue

end Scalar

end Doubles

end LinearProgram
