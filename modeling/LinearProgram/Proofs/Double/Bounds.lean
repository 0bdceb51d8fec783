import LinearProgram.Proofs.Double.Numeral

/-! # Bounds of doubles

What is bounded by a power of two that is a double stays so when it is rounded. Sums, products and
quotients of bounded doubles are therefore finite and bounded, as long as the bounds are doubles.
-/

namespace LinearProgram

namespace Double

open Float.Model Float.Model.UnpackedFloat

variable {x y : Float} {v : ℚ} {i j k : ℕ}

/-- The powers of two from `2 ^ -1022` up to `2 ^ 1023` are doubles. -/
theorem exists_power {e : ℤ} (hlow : -1022 ≤ e) (hhigh : e ≤ 1023) : ∃ b, HasValue b (2 ^ e) := by
  let u : UnpackedFloat := .finite .positive (2 ^ 52) (e - 52) (Nat.two_pow_pos 52)
  have hrounded : IsRounded u := ⟨by norm_num, by omega, .inl le_rfl⟩
  have hunpack : (Float.Model.pack u).unpack = u := unpack_pack hrounded (by change _ ≤ _; omega)
  have hfinite : Float.isFinite ⟨Float.Model.pack u⟩ = true :=
    isFinite_of_isRounded (by rw [hunpack]; exact hrounded)
  refine ⟨⟨Float.Model.pack u⟩, hfinite, ?_⟩
  have hvalue : value ⟨Float.Model.pack u⟩ = valueOf u := congrArg valueOf hunpack
  rw [hvalue, valueOf_positive, zpow_sub₀ two_ne_zero]
  push_cast
  field_simp

/-- The double is finite, and at most `2 ^ k` in magnitude. -/
def Within (k : ℕ) (x : Float) : Prop := x.isFinite = true ∧ |value x| ≤ 2 ^ k

theorem Within.mono (h : Within i x) (hij : i ≤ j) : Within j x :=
  ⟨h.1, h.2.trans (pow_le_pow_right₀ one_le_two hij)⟩

/-- Rounding keeps a bound that is a double. -/
theorem Rounds.within (h : Rounds v x) (hv : |v| ≤ 2 ^ k) (hk : k ≤ 1023) : Within k x := by
  obtain ⟨b, hb, hvalue⟩ := exists_power (e := k) (by omega) (by omega)
  obtain ⟨hneg, hnegValue⟩ := isFinite_neg hb
  rw [hvalue, zpow_natCast] at hnegValue
  rw [zpow_natCast] at hvalue
  obtain ⟨hlow, hhigh⟩ := abs_le.mp hv
  have hle := h.le (-b) hneg (by rwa [hnegValue])
  have hge := h.ge b hb (by rwa [hvalue])
  rw [position_of_isFinite hneg, hnegValue] at hle
  rw [position_of_isFinite hb, hvalue] at hge
  rcases isFinite_or h.isNaN with hx | ⟨s, hs⟩
  · rw [position_of_isFinite hx, mark_le_mark] at hle hge
    exact ⟨hx, abs_le.mpr ⟨hle, hge⟩⟩
  · cases s with
    | positive =>
      rw [position_eq_top hs] at hge
      exact absurd hge (mark_lt_top _).not_ge
    | negative =>
      rw [position_eq_bot hs] at hle
      exact absurd hle (bot_lt_mark _).not_ge

/-- Rounding keeps a lower bound that is a double. -/
theorem Rounds.le_abs (h : Rounds v x) (hx : x.isFinite = true) {e : ℤ} (hv : 2 ^ e ≤ |v|)
    (hlow : -1022 ≤ e) (hhigh : e ≤ 1023) : 2 ^ e ≤ |value x| := by
  obtain ⟨b, hb, hvalue⟩ := exists_power hlow hhigh
  obtain ⟨hneg, hnegValue⟩ := isFinite_neg hb
  rw [hvalue] at hnegValue
  rcases le_abs'.mp hv with hle | hge
  · have hpos := h.ge (-b) hneg (by rwa [hnegValue])
    rw [position_of_isFinite hneg, position_of_isFinite hx, mark_le_mark, hnegValue] at hpos
    exact le_abs'.mpr (.inl hpos)
  · have hpos := h.le b hb (by rwa [hvalue])
    rw [position_of_isFinite hb, position_of_isFinite hx, mark_le_mark, hvalue] at hpos
    exact le_abs'.mpr (.inr hpos)

theorem Rounds.nonneg (h : Rounds v x) (hx : x.isFinite = true) (hv : 0 ≤ v) : 0 ≤ value x := by
  have hpos := h.le 0 isFinite_zero hv
  rwa [position_zero, position_of_isFinite hx, mark_le_mark] at hpos

namespace Within

variable (hx : Within i x) (hy : Within j y)

include hx

theorem neg : Within i (-x) := by
  obtain ⟨hneg, hvalue⟩ := isFinite_neg hx.1
  refine ⟨hneg, ?_⟩
  rw [hvalue, abs_neg]
  exact hx.2

theorem abs : Within i x.abs := by
  obtain ⟨habs, hvalue⟩ := isFinite_abs hx.1
  refine ⟨habs, ?_⟩
  rw [hvalue, abs_abs]
  exact hx.2

theorem unsignedZero : Within i (Scalar.unsignedZero x) := by
  obtain ⟨hfinite, hvalue⟩ := (hasValue_value hx.1).unsignedZero
  refine ⟨hfinite, ?_⟩
  rw [hvalue]
  exact hx.2

include hy

theorem add (hk : max i j + 1 ≤ 1023) : Within (max i j + 1) (x + y) := by
  refine (rounds_add hx.1 hy.1).within ?_ hk
  have hx' := (hx.mono (le_max_left i j)).2
  have hy' := (hy.mono (le_max_right i j)).2
  have hsum := abs_add_le (value x) (value y)
  rw [pow_succ]
  linarith

theorem sub (hk : max i j + 1 ≤ 1023) : Within (max i j + 1) (x - y) := by
  refine (rounds_sub hx.1 hy.1).within ?_ hk
  have hx' := (hx.mono (le_max_left i j)).2
  have hy' := (hy.mono (le_max_right i j)).2
  have hdifference := abs_sub (value x) (value y)
  rw [pow_succ]
  linarith

theorem mul (hk : i + j ≤ 1023) : Within (i + j) (x * y) := by
  refine (rounds_mul hx.1 hy.1).within ?_ hk
  rw [abs_mul, pow_add]
  exact mul_le_mul hx.2 hy.2 (abs_nonneg _) (by positivity)

theorem larger : Within (max i j) (Scalar.larger x y) := by
  have hlarger : Scalar.larger x y = if y < x || y.isNaN then x else y := rfl
  rw [hlarger]
  split
  · exact hx.mono (le_max_left i j)
  · exact hy.mono (le_max_right i j)

omit hy in
theorem div (hy : y.isFinite = true) (hlow : 2 ^ (-j : ℤ) ≤ |value y|) (hk : i + j ≤ 1023) :
    Within (i + j) (x / y) := by
  have hpos : (0 : ℚ) < 2 ^ (-j : ℤ) := two_zpow_pos _
  have h0 : value y ≠ 0 := abs_pos.mp (hpos.trans_le hlow)
  refine (rounds_div hx.1 hy h0).within ?_ hk
  rw [abs_div, div_le_iff₀ (abs_pos.mpr h0)]
  have hinv : (2 : ℚ) ^ j * 2 ^ (-j : ℤ) = 1 := by
    rw [← zpow_natCast, ← zpow_add₀ two_ne_zero, add_neg_cancel, zpow_zero]
  calc |value x| ≤ 2 ^ i := hx.2
    _ = 2 ^ (i + j) * 2 ^ (-j : ℤ) := by rw [pow_add, mul_assoc, hinv, mul_one]
    _ ≤ 2 ^ (i + j) * |value y| := mul_le_mul_of_nonneg_left hlow (by positivity)

end Within

/-- The larger of two finite doubles is at least as large as both. -/
theorem le_value_larger (hx : x.isFinite = true) (hy : y.isFinite = true) :
    value x ≤ value (Scalar.larger x y) ∧ value y ≤ value (Scalar.larger x y) := by
  have hlarger : Scalar.larger x y = if y < x || y.isNaN then x else y := rfl
  rw [hlarger, isNaN_of_isFinite hy, Bool.or_false]
  by_cases hlt : y < x
  · have hpos := (lt_iff.mp hlt).2.2
    rw [position_of_isFinite hx, position_of_isFinite hy, mark_lt_mark] at hpos
    simpa [hlt] using hpos.le
  · have hpos := (le_iff.mp ((not_lt_iff (isNaN_of_isFinite hy) (isNaN_of_isFinite hx)).mp hlt)).2.2
    rw [position_of_isFinite hx, position_of_isFinite hy, mark_le_mark] at hpos
    simpa [hlt] using hpos

end Double

end LinearProgram
