import LinearProgram.Number.Scalar
import LinearProgram.Number.Decimal
import LinearProgram.Proofs.Double.Order
import LinearProgram.Proofs.Double.Quotients

/-! # Doubles from decimals

A whole number is the same double whether it is read with no decimal places or with no power of ten,
since one is neutral for products and for quotients of doubles.
-/

namespace LinearProgram

namespace Double

open Float.Model Float.Model.UnpackedFloat

section Values

variable {x y a : Float} {p q : ℚ}

/-- The double is finite and has this value. -/
def HasValue (x : Float) (q : ℚ) : Prop := x.isFinite = true ∧ value x = q

theorem hasValue_value (h : x.isFinite = true) : HasValue x (value x) := ⟨h, rfl⟩

theorem hasValue_zero : HasValue 0 0 := ⟨isFinite_zero, value_zero⟩

theorem HasValue.neg (h : HasValue x q) : HasValue (-x) (-q) := by
  obtain ⟨hfinite, rfl⟩ := h
  exact isFinite_neg hfinite

/-- A sum that is the value of a double is exact. -/
theorem HasValue.add (hx : HasValue x p) (hy : HasValue y q) (ha : HasValue a (p + q)) :
    HasValue (x + y) (p + q) := by
  obtain ⟨hx, rfl⟩ := hx
  obtain ⟨hy, rfl⟩ := hy
  exact (rounds_add hx hy).eq_value ha.1 ha.2

/-- A product that is the value of a double is exact. -/
theorem HasValue.mul (hx : HasValue x p) (hy : HasValue y q) (ha : HasValue a (p * q)) :
    HasValue (x * y) (p * q) := by
  obtain ⟨hx, rfl⟩ := hx
  obtain ⟨hy, rfl⟩ := hy
  exact (rounds_mul hx hy).eq_value ha.1 ha.2

theorem HasValue.unsignedZero (h : HasValue x q) : HasValue (Scalar.unsignedZero x) q := by
  have hsum := h.add hasValue_zero ((add_zero q).symm ▸ h)
  rwa [add_zero] at hsum

theorem HasValue.beq_iff (hy : HasValue y q) : (x == y) = true ↔ HasValue x q := by
  obtain ⟨hy, rfl⟩ := hy
  exact beq_iff_value hy

theorem HasValue.neg_iff (hx : HasValue x q) : x < 0 ↔ q < 0 := by
  obtain ⟨hx, rfl⟩ := hx
  rw [lt_iff, position_of_isFinite hx, position_zero, mark_lt_mark]
  simp only [isNaN_of_isFinite hx, isNaN_of_isFinite isFinite_zero, true_and]

end Values

section One

variable {x : Float}

/-- The double one, in the power table of decimal numerals. -/
def one : Float := Float.ofBits 0x3FF0000000000000

theorem unpack_one : one.toModel.unpack = .finite .positive (2 ^ 52) (-52) (Nat.two_pow_pos 52) :=
  rfl

theorem hasValue_one : HasValue one 1 := by
  refine ⟨by decide +kernel, ?_⟩
  rw [value, unpack_one, valueOf_positive]
  norm_num

theorem hasValue_div_one (hx : x.isFinite = true) : HasValue (x / one) (value x) := by
  obtain ⟨hone, hvalue⟩ := hasValue_one
  have h := rounds_div hx hone (by rw [hvalue]; exact one_ne_zero)
  rw [hvalue, div_one] at h
  exact h.eq_value hx rfl

theorem hasValue_mul_one (hx : x.isFinite = true) : HasValue (x * one) (value x) := by
  have h := (hasValue_value hx).mul hasValue_one (a := x)
  rw [mul_one] at h
  exact h (hasValue_value hx)

theorem isFinite_of_mul_one (h : (x * one).isFinite = true) : x.isFinite = true := by
  change (Float.Model.pack (UnpackedFloat.mul .binary64 x.toModel.unpack
    one.toModel.unpack)).unpack.isFinite = true at h
  change x.toModel.unpack.isFinite = true
  rw [unpack_one] at h
  generalize x.toModel.unpack = u at h
  cases u with
  | zero s => rfl
  | finite s m e hm => rfl
  | infinity s =>
    have hproduct : UnpackedFloat.mul .binary64 (.infinity s)
        (.finite .positive (2 ^ 52) (-52) (Nat.two_pow_pos 52)) = .infinity (s * .positive) := rfl
    rw [hproduct, unpack_pack_infinity] at h
    exact h
  | notANumber => exact h

theorem isFinite_of_neg (h : (-x).isFinite = true) : x.isFinite = true := by
  change (Float.Model.pack x.toModel.unpack.neg).unpack.isFinite = true at h
  change x.toModel.unpack.isFinite = true
  generalize x.toModel.unpack = u at h
  cases u with
  | zero s => rfl
  | finite s m e hm => rfl
  | infinity s =>
    rw [UnpackedFloat.neg, unpack_pack_infinity] at h
    exact h
  | notANumber => exact h

end One

section Decimals

variable {digits places : ℕ}

/-- A whole number may be read as one without decimal places. -/
theorem ofScientific_whole (h : (Float.ofScientific digits false 0).isFinite = true) :
    HasValue (Float.ofScientific digits true 0) (value (Float.ofScientific digits false 0)) := by
  by_cases hsmall : digits < 2 ^ 53
  · have hmul : Float.ofScientific digits false 0 = digits.toUInt64.toFloat * one :=
      dif_pos ⟨hsmall, Nat.zero_le 22⟩
    have hdiv : Float.ofScientific digits true 0 = digits.toUInt64.toFloat / one :=
      dif_pos ⟨hsmall, Nat.zero_le 22⟩
    rw [hmul] at h ⊢
    rw [hdiv]
    have hx := isFinite_of_mul_one h
    rw [(hasValue_mul_one hx).2]
    exact hasValue_div_one hx
  · have hlarge : ¬ (digits < 2 ^ 53 ∧ 0 ≤ 22) := fun h => hsmall h.1
    have hsame : Float.ofScientific digits true 0 = Float.ofScientific digits false 0 := by
      rw [Float.ofScientific, Float.ofScientific, dif_neg hlarge, dif_neg hlarge]
      rfl
    rw [hsame]
    exact hasValue_value h

theorem ofScientific_zero (h : places ≤ 22) : Float.ofScientific 0 true places = 0 := by
  have hplaces : ∀ n : Fin 23, Float.ofScientific 0 true n = 0 := by decide +kernel
  exact hplaces ⟨places, Nat.lt_succ_of_le h⟩

/-- The cuts for numbers that are too large or too small do not matter for a finite number with few
decimal places. -/
theorem hasValue_ofScientific (hplaces : places ≤ 22)
    (h : (Decimal.magnitude digits (-places)).isFinite = true) :
    HasValue (Float.ofScientific digits true places)
      (value (Decimal.magnitude digits (-places))) := by
  by_cases hzero : digits = 0
  · have hmagnitude : Decimal.magnitude digits (-places) = 0 := if_pos hzero
    rw [hmagnitude, hzero, ofScientific_zero hplaces]
    exact hasValue_zero
  · have hmagnitude : Decimal.magnitude digits (-places) =
        Float.ofScientific digits (-(places : ℤ) < 0) (-(places : ℤ)).natAbs := by
      have hlarge : ¬ 310 < ((Nat.toDigits 10 digits).length : ℤ) + -places := by
        intro hlarge
        rw [Decimal.magnitude, if_neg hzero] at h
        dsimp only at h
        rw [if_pos hlarge] at h
        exact absurd h (by decide +kernel)
      rw [Decimal.magnitude, if_neg hzero]
      dsimp only
      rw [if_neg hlarge, if_neg (by omega)]
    rw [hmagnitude, Int.natAbs_neg, Int.natAbs_natCast] at h ⊢
    rcases places.eq_zero_or_pos with rfl | hpos
    · exact ofScientific_whole h
    · have hneg : -(places : ℤ) < 0 := by omega
      rw [decide_eq_true hneg] at h ⊢
      exact hasValue_value h

end Decimals

end Double

end LinearProgram
