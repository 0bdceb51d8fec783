import LinearProgram.Number.Decimal
import LinearProgram.Proofs.Digits
import LinearProgram.Proofs.Double.Exact

/-! # The size of printed decimals

The decimal that is printed for a double is next to the double on a grid of powers of ten that are
not larger than it, or is the double itself. It is therefore at most twice as large.
-/

namespace LinearProgram

namespace Decimal

/-- The value of digits that end at a power of ten. -/
def scaled (digits : ℕ) (exponent : ℤ) : ℚ := digits * 10 ^ exponent

/-- The value of a decimal without its sign. -/
def size (d : Decimal) : ℚ := scaled d.digits d.exponent

theorem ten_zpow_pos (e : ℤ) : (0 : ℚ) < 10 ^ e := zpow_pos (by norm_num) e

theorem scaled_zero (exponent : ℤ) : scaled 0 exponent = 0 := by
  rw [scaled, Nat.cast_zero, zero_mul]

/-- Zeros behind the digits raise the power. -/
theorem scaled_mul_pow (digits k : ℕ) (exponent : ℤ) :
    scaled (digits * 10 ^ k) exponent = scaled digits (exponent + k) := by
  rw [scaled, scaled, zpow_add₀ (by norm_num), zpow_natCast]
  push_cast
  ring

theorem scaled_trimmed (fuel : ℕ) (d : ℕ × ℤ) :
    scaled (trimmed fuel d).1 (trimmed fuel d).2 = scaled d.1 d.2 := by
  induction fuel generalizing d with
  | zero => rfl
  | succ fuel ih =>
    obtain ⟨digits, exponent⟩ := d
    rw [trimmed]
    split
    · next h =>
      have hdigits : digits / 10 * 10 ^ 1 = digits := by omega
      rw [ih, ← Nat.cast_one, ← scaled_mul_pow, hdigits]
    · rfl

section Neighbours

variable {num den : ℕ}

theorem zpow_leadingPower_le (hnum : 0 < num) (hden : 0 < den) :
    (10 : ℚ) ^ leadingPower num den ≤ num / den := by
  rw [le_div_iff₀ (Nat.cast_pos.mpr hden), leadingPower]
  split
  · next hle =>
    obtain ⟨hlow, -⟩ := Digits.pow_length_toDigits (Nat.div_pos hle hden)
    have hlength := @Nat.length_toDigits_pos 10 (num / den)
    rw [← Nat.cast_pred hlength, zpow_natCast]
    exact_mod_cast (Nat.mul_le_mul_right den hlow).trans (Nat.div_mul_le_self num den)
  · next hlt =>
    obtain ⟨-, hhigh⟩ := Digits.pow_length_toDigits (Nat.div_pos (not_le.mp hlt).le hnum)
    have hpower : ∀ k : ℕ, den ≤ num * 10 ^ k → (10 : ℚ) ^ (-k : ℤ) * den ≤ num := by
      intro k hk
      rw [zpow_neg, zpow_natCast, inv_mul_le_iff₀ (by positivity), mul_comm]
      exact_mod_cast hk
    dsimp only
    split
    · next hle => exact hpower _ hle
    · exact hpower _ (((Nat.div_lt_iff_lt_mul hnum).mp hhigh).le.trans_eq (mul_comm _ _))

theorem le_of_mem_neighbours {exponent : ℤ} {digits : ℕ}
    (h : digits ∈ neighbours num den exponent) :
    digits ≤ num * 10 ^ (-exponent).toNat / (den * 10 ^ exponent.toNat) + 1 := by
  rw [neighbours] at h
  dsimp only [Nat.pow_eq] at h
  split at h
  · simp only [List.mem_singleton] at h
    omega
  · split at h <;>
      (simp only [List.mem_cons, List.not_mem_nil, or_false] at h; omega)

/-- The multiples of a power of ten next to a fraction that is not smaller than the power. -/
theorem scaled_neighbours_le {exponent : ℤ} {digits : ℕ}
    (h : digits ∈ neighbours num den exponent) (hle : (10 : ℚ) ^ exponent ≤ num / den) :
    scaled digits exponent ≤ 2 * (num / den) := by
  have hpow : (10 : ℚ) ^ exponent * 10 ^ (-exponent).toNat = 10 ^ exponent.toNat := by
    rw [← zpow_natCast, ← zpow_natCast, ← zpow_add₀ (by norm_num)]
    congr 1
    omega
  have hquotient : ((num * 10 ^ (-exponent).toNat : ℕ) : ℚ) / (den * 10 ^ exponent.toNat : ℕ) *
      10 ^ exponent = num / den := by
    push_cast
    rw [← hpow]
    field_simp
  have hdigits : (digits : ℚ) ≤ ((num * 10 ^ (-exponent).toNat : ℕ) : ℚ) /
      (den * 10 ^ exponent.toNat : ℕ) + 1 := by
    refine (Nat.cast_le.mpr (le_of_mem_neighbours h)).trans ?_
    rw [Nat.cast_succ]
    exact add_le_add_left Nat.cast_div_le 1
  calc scaled digits exponent ≤ _ * 10 ^ exponent :=
        mul_le_mul_of_nonneg_right hdigits (ten_zpow_pos exponent).le
    _ = num / den + 10 ^ exponent := by rw [add_mul, hquotient, one_mul]
    _ ≤ 2 * (num / den) := by linarith

theorem scaled_shortest_le {x : Float} (hnum : 0 < num) (hden : 0 < den) {d : ℕ × ℤ}
    (h : shortest? x num den = some d) : scaled d.1 d.2 ≤ 2 * (num / den) := by
  simp only [shortest?] at h
  obtain ⟨k, -, hk⟩ := List.exists_of_findSome?_eq_some h
  obtain ⟨digits, hdigits, rfl⟩ := Option.map_eq_some_iff.mp hk
  refine scaled_neighbours_le (List.mem_of_find?_eq_some hdigits) ?_
  exact (zpow_le_zpow_right₀ (by norm_num) (by omega)).trans (zpow_leadingPower_le hnum hden)

/-- All the digits of a fraction whose denominator is a power of two. -/
theorem scaled_all_le (hden : 0 < den) :
    scaled (num * Nat.pow 5 den.log2) (-(den.log2 : ℤ)) ≤ 2 * (num / den) := by
  have hlog : (den : ℚ) ≤ 2 ^ (den.log2 + 1) := by exact_mod_cast Nat.lt_log2_self.le
  have hall : scaled (num * Nat.pow 5 den.log2) (-(den.log2 : ℤ)) = num / 2 ^ den.log2 := by
    have hten : (10 : ℚ) ^ den.log2 = 2 ^ den.log2 * 5 ^ den.log2 := by
      rw [← mul_pow]
      norm_num
    rw [scaled, Nat.pow_eq, zpow_neg, zpow_natCast, hten]
    push_cast
    field_simp
  rw [hall, ← mul_div_assoc, div_le_div_iff₀ (by positivity) (Nat.cast_pos.mpr hden)]
  calc (num : ℚ) * den ≤ num * 2 ^ (den.log2 + 1) :=
        mul_le_mul_of_nonneg_left hlog (Nat.cast_nonneg num)
    _ = 2 * num * 2 ^ den.log2 := by ring

end Neighbours

open Double

/-- What is printed for a double is at most twice as large as the double. -/
theorem size_ofFloat_le {x : Float} {d : Decimal} (h : ofFloat? x = some d) :
    d.size ≤ 2 * |value x| := by
  rw [ofFloat?] at h
  split at h
  · next negative num den hexact =>
    obtain ⟨hden, habs⟩ := Scalar.abs_value_of_exact hexact
    rw [habs]
    split at h
    · obtain rfl := Option.some.inj h
      rw [size, scaled_zero]
      positivity
    · next hnum =>
      dsimp only at h
      obtain rfl := Option.some.inj h
      rw [size, scaled_trimmed]
      cases hshortest : shortest? x.abs num den with
      | none => exact scaled_all_le hden
      | some d => exact scaled_shortest_le (Nat.pos_of_ne_zero hnum) hden hshortest
  · cases h

end Decimal

end LinearProgram
