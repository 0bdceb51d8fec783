import LinearProgram.Proofs.Double.Arithmetic

/-! # Quotients of doubles

A quotient is found with its remainder, of which two bits are kept: whether there is one, and how it
compares to a half. No number of the rounded form lies between two multiples of the last bit, so
quotients are rounded faithfully as well.
-/

namespace LinearProgram

namespace Double

open Float.Model Float.Model.UnpackedFloat

variable {u w : UnpackedFloat} {s : Sign} {m n : ℕ} {e f : ℤ}

section Residues

/-- A remainder in quarters of the last bit, as far as rounding needs it. -/
def residue : Ordering → ℕ
  | .lt => 1
  | .eq => 2
  | .gt => 3

theorem residue_bounds (o : Ordering) : 0 < residue o ∧ residue o < 4 := by
  cases o <;> decide

theorem shiftRight_residue (m : ℕ) (o : Ordering) (k : ℕ) :
    (⟨4 * m + residue o, false, false⟩ : ExtendedMantissa) >>> (k + 2) =
      ExtendedMantissa.ofMantissaAndAccuracy m (.inexact o) >>> k := by
  induction k with
  | zero =>
    change (ExtendedMantissa.mk (4 * m + residue o) false false).shiftRightOne.shiftRightOne =
      ExtendedMantissa.ofMantissaAndAccuracy m (.inexact o)
    cases o <;>
      simp only [residue, ExtendedMantissa.shiftRightOne, ExtendedMantissa.ofMantissaAndAccuracy,
        ExtendedMantissa.mk.injEq, Bool.or_false, bne_iff_ne, bne_eq_false_iff_eq] <;> omega
  | succ k ih => exact congrArg ExtendedMantissa.shiftRightOne ih

theorem log2_residue (hm : 0 < m) (o : Ordering) : (4 * m + residue o).log2 = m.log2 + 2 := by
  have hresidue := residue_bounds o
  have hlow := Nat.log2_self_le hm.ne'
  have hhigh := Nat.lt_log2_self (n := m)
  rw [Nat.log2_eq_iff (by omega), pow_add, add_right_comm, pow_add]
  omega

/-- A remainder may be taken for two more bits. -/
theorem roundWithAccuracy_inexact (s : Sign) (o : Ordering) (hspare : 52 ≤ m.log2 ∨ e ≤ -1074) :
    roundWithAccuracy .binary64 s m e (.inexact o) =
      roundWithAccuracy .binary64 s (4 * m + residue o) (e - 2) .exact := by
  have htarget : max (((4 * m + residue o).log2 : ℤ) + (e - 2) - 52) (-1074) =
      max (m.log2 + e - 52) (-1074) := by
    rcases m.eq_zero_or_pos with rfl | hm
    · have hlog : (4 * 0 + residue o).log2 ≤ 1 := by cases o <;> decide
      have hzero : (0 : ℕ).log2 = 0 := rfl
      omega
    · rw [log2_residue hm]
      omega
  have hamount : (max ((m.log2 : ℤ) + e - 52) (-1074) - (e - 2)).toNat =
      (max ((m.log2 : ℤ) + e - 52) (-1074) - e).toNat + 2 := by omega
  have hshift : shiftToTargetExponent .binary64 m e (.inexact o) =
      shiftToTargetExponent .binary64 (4 * m + residue o) (e - 2) .exact := by
    rw [shiftToTargetExponent_eq, htarget, hamount, shiftRight_residue, shiftToTargetExponent,
      targetExponent_eq]
    refine Prod.ext rfl ?_
    change e + _ = _
    omega
  rw [roundWithAccuracy, roundWithAccuracy, hshift]

end Residues

section Gaps

/-- No rounded magnitude lies between two multiples of a unit that are next to each other. -/
theorem le_or_ge_of_isRounded (hw : IsRounded w) (hkeep : 2 ^ 52 ≤ m ∨ e ≤ -1074) :
    |valueOf w| ≤ m * 2 ^ e ∨ (m + 1 : ℕ) * 2 ^ e ≤ |valueOf w| := by
  obtain ⟨n, f, hn, hf, habs⟩ := exists_abs_valueOf hw
  rw [habs]
  rcases le_or_gt e f with hle | hlt
  · obtain ⟨j, rfl⟩ := Int.le.dest hle
    rw [units_le_iff, le_units_iff]
    omega
  · have hm : 2 ^ 52 ≤ m := hkeep.resolve_right (by omega)
    have hsmall := magnitude_lt hn hf (.inl le_rfl) hlt
    have hunits : ((2 ^ 52 : ℕ) : ℚ) * 2 ^ e ≤ m * 2 ^ e :=
      mul_le_mul_of_nonneg_right (by exact_mod_cast hm) (two_zpow_pos e).le
    exact .inl (hsmall.le.trans hunits)

/-- A magnitude with its sign. -/
def signed (s : Sign) (q : ℚ) : ℚ :=
  match s with
  | .positive => q
  | .negative => -q

theorem apply_mul_eq_signed (s : Sign) (m : ℕ) (q : ℚ) :
    (s.apply m : ℤ) * q = signed s (m * q) := by
  cases s <;> simp [signed, Sign.apply]

/-- Values between the same two multiples of a unit are rounded alike. -/
theorem Faithful.of_gap {t t' : ℚ} (hkeep : 2 ^ 52 ≤ m ∨ e ≤ -1074) (ht : (m : ℚ) < t ∧ t < m + 1)
    (ht' : (m : ℚ) < t' ∧ t' < m + 1) (h : Faithful (signed s (t * 2 ^ e)) u) :
    Faithful (signed s (t' * 2 ^ e)) u := by
  have hpos := two_zpow_pos e
  have hgap : ∀ {q : ℚ}, |q| ≤ m * 2 ^ e ∨ (m + 1 : ℕ) * 2 ^ e ≤ |q| →
      (q ≤ t' * 2 ^ e → q ≤ t * 2 ^ e) ∧ (t' * 2 ^ e ≤ q → t * 2 ^ e ≤ q) := by
    intro q hq
    have hlow : (m : ℚ) * 2 ^ e < t * 2 ^ e := mul_lt_mul_of_pos_right ht.1 hpos
    have hlow' : (m : ℚ) * 2 ^ e < t' * 2 ^ e := mul_lt_mul_of_pos_right ht'.1 hpos
    have hhigh : t * 2 ^ e < (m + 1) * 2 ^ e := mul_lt_mul_of_pos_right ht.2 hpos
    have hhigh' : t' * 2 ^ e < (m + 1) * 2 ^ e := mul_lt_mul_of_pos_right ht'.2 hpos
    have hnonneg : (0 : ℚ) ≤ m * 2 ^ e := mul_nonneg (Nat.cast_nonneg m) hpos.le
    push_cast at hq
    rcases hq with hq | hq
    · exact ⟨fun _ => (le_abs_self q).trans (hq.trans hlow.le),
        fun hge => absurd ((le_abs_self q).trans hq) (hlow'.trans_le hge).not_ge⟩
    · rcases le_abs'.mp hq with hneg | hge
      · exact ⟨fun _ => by linarith, fun hge => by linarith⟩
      · exact ⟨fun hle => by linarith, fun _ => by linarith⟩
  refine ⟨h.isRounded, fun w hw hle => h.le w hw ?_, fun w hw hge => h.ge w hw ?_⟩
  all_goals
    have hout := le_or_ge_of_isRounded hw hkeep
    have hneg := hout
    rw [← abs_neg] at hneg
    cases s
  · have := (hgap hneg).2 (by simpa [signed, le_neg] using hle)
    simpa [signed, le_neg] using this
  · exact (hgap hout).1 hle
  · have := (hgap hneg).1 (by simpa [signed, neg_le] using hge)
    simpa [signed, neg_le] using this
  · exact (hgap hout).2 hge

end Gaps

section Quotients

/-- The quotient of two magnitudes is found to 53 bits, or down to the least exponent. -/
theorem exists_divCore (hm : 0 < m) (hn : 0 < n) (e f : ℤ) : ∃ j : ℕ,
    divCore .binary64 m e n f =
      (m * 2 ^ j / n, e - f - j, accuracyOfFraction (m * 2 ^ j % n) n) ∧
    (2 ^ 52 ≤ m * 2 ^ j / n ∨ e - f - j ≤ -1074) := by
  obtain ⟨j, hj, htarget⟩ : ∃ j : ℕ, j = (e - f - max ((m.log2 : ℤ) + e - n.log2 - f - 53)
      (-1074)).toNat ∧ min (e - f) (Format.binary64.targetExponent
        (totalExponent m e - totalExponent n f)) = e - f - j := by
    refine ⟨_, rfl, ?_⟩
    simp only [Format.targetExponent, totalExponent, Format.mantissaBits, Format.minExponent]
    norm_num
    omega
  have hshift : (e - f - (e - f - j)).toNat = j := by omega
  refine ⟨j, by simp only [divCore, htarget, hshift, Nat.shiftLeft_eq], ?_⟩
  by_cases hleast : e - f - j ≤ -1074
  · exact .inr hleast
  · refine .inl ((Nat.le_div_iff_mul_le hn).mpr ?_)
    have hbits : 52 + (n.log2 + 1) ≤ m.log2 + j := by omega
    calc 2 ^ 52 * n ≤ 2 ^ 52 * 2 ^ (n.log2 + 1) := Nat.mul_le_mul_left _ Nat.lt_log2_self.le
      _ = 2 ^ (52 + (n.log2 + 1)) := (pow_add ..).symm
      _ ≤ 2 ^ (m.log2 + j) := Nat.pow_le_pow_right two_pos hbits
      _ = 2 ^ m.log2 * 2 ^ j := pow_add ..
      _ ≤ m * 2 ^ j := Nat.mul_le_mul_right _ (Nat.log2_self_le hm.ne')

/-- The quotient of two magnitudes is its digits and what the remainder adds. -/
theorem div_magnitudes (hn : 0 < n) (e f : ℤ) (j : ℕ) :
    (m : ℚ) * 2 ^ e / (n * 2 ^ f) =
      ((m * 2 ^ j / n : ℕ) + (m * 2 ^ j % n : ℕ) / n) * 2 ^ (e - f - j) := by
  have hn0 : (n : ℚ) ≠ 0 := Nat.cast_ne_zero.mpr hn.ne'
  have hf := (two_zpow_pos f).ne'
  have hsplit : (m : ℚ) * 2 ^ j = n * (m * 2 ^ j / n : ℕ) + (m * 2 ^ j % n : ℕ) := by
    exact_mod_cast (Nat.div_add_mod (m * 2 ^ j) n).symm
  have hpower : (2 : ℚ) ^ e = 2 ^ (e - f - j) * 2 ^ f * 2 ^ j := by
    rw [← zpow_natCast, ← zpow_add₀ two_ne_zero, ← zpow_add₀ two_ne_zero]
    congr 1
    ring
  rw [hpower, div_eq_iff (mul_ne_zero hn0 hf)]
  calc (m : ℚ) * (2 ^ (e - f - j) * 2 ^ f * 2 ^ j)
      = (m * 2 ^ j) * (2 ^ (e - f - j) * 2 ^ f) := by ring
    _ = (n * (m * 2 ^ j / n : ℕ) + (m * 2 ^ j % n : ℕ)) * (2 ^ (e - f - j) * 2 ^ f) := by
      rw [hsplit]
    _ = ((m * 2 ^ j / n : ℕ) + (m * 2 ^ j % n : ℕ) / n) * 2 ^ (e - f - j) * (n * 2 ^ f) := by
      field_simp

/-- A magnitude between two multiples of a unit is rounded faithfully, whatever is known of where
it lies between them. -/
theorem faithful_inexact (s : Sign) (o : Ordering) {q : ℕ} {x : ℚ}
    (hkeep : 52 ≤ q.log2 ∨ e ≤ -1074) (hpos : 0 < x) (hlt : x < 1) :
    Faithful (signed s ((q + x) * 2 ^ e)) (roundWithAccuracy .binary64 s q e (.inexact o)) := by
  rw [roundWithAccuracy_inexact s _ hkeep]
  obtain ⟨hlow, hhigh⟩ := residue_bounds o
  have hlow' : (0 : ℚ) < residue o := by exact_mod_cast hlow
  have hhigh' : (residue o : ℚ) < 4 := by exact_mod_cast hhigh
  have hkeep' : 2 ^ 52 ≤ q ∨ e ≤ -1074 := by
    refine hkeep.imp_left fun hlog => ?_
    have hq0 : q ≠ 0 := fun hzero => by
      rw [hzero] at hlog
      exact absurd hlog (by decide)
    exact (Nat.le_log2 hq0).mp hlog
  have hspare : 52 ≤ (4 * q + residue o).log2 ∨ e - 2 ≤ -1074 := by
    rcases hkeep' with hfull | hleast
    · refine .inl ?_
      rw [log2_residue ((Nat.two_pow_pos 52).trans_le hfull)]
      exact ((Nat.le_log2 ((Nat.two_pow_pos 52).trans_le hfull).ne').mpr hfull).trans
        (Nat.le_add_right _ 2)
    · exact .inr (by omega)
  have hrounded := faithful_roundWithAccuracy (m := 4 * q + residue o) s (by omega) hspare
  refine Faithful.of_gap (t := q + residue o / 4) hkeep' ⟨by linarith, by linarith⟩
    ⟨by linarith, by linarith⟩ ?_
  rw [apply_mul_eq_signed] at hrounded
  convert hrounded using 2
  rw [zpow_sub₀ two_ne_zero _ 2]
  push_cast
  ring

/-- The quotient of two magnitudes, with any sign, is rounded faithfully. -/
theorem faithful_divCore (s : Sign) (hm : 0 < m) (hn : 0 < n) (e f : ℤ) :
    Faithful (signed s (m * 2 ^ e / (n * 2 ^ f)))
      (roundWithAccuracy .binary64 s (divCore .binary64 m e n f).1 (divCore .binary64 m e n f).2.1
        (divCore .binary64 m e n f).2.2) := by
  obtain ⟨j, hdiv, hkeep⟩ := exists_divCore hm hn e f
  rw [hdiv, div_magnitudes hn e f j]
  have hspare : 52 ≤ (m * 2 ^ j / n).log2 ∨ e - f - j ≤ -1074 := by
    refine hkeep.imp_left fun hfull => ?_
    exact (Nat.le_log2 (Nat.lt_of_lt_of_le (Nat.two_pow_pos 52) hfull).ne').mpr hfull
  have hrest : m * 2 ^ j % n < n := Nat.mod_lt _ hn
  rcases (m * 2 ^ j % n).eq_zero_or_pos with hzero | hpos
  · have hq0 : 0 < m * 2 ^ j / n :=
      Nat.div_pos (Nat.le_of_dvd (by positivity) (Nat.dvd_of_mod_eq_zero hzero)) hn
    have hexact := faithful_roundWithAccuracy s hq0 hspare
    rw [apply_mul_eq_signed] at hexact
    simpa [accuracyOfFraction, hzero] using hexact
  · have hn0 : (0 : ℚ) < n := by exact_mod_cast hn
    rw [accuracyOfFraction, if_neg hpos.ne']
    exact faithful_inexact s _ hspare (div_pos (by exact_mod_cast hpos) hn0)
      ((div_lt_one hn0).mpr (by exact_mod_cast hrest))

theorem faithful_div (hu : IsRounded u) (hw : IsRounded w) (h0 : valueOf w ≠ 0) :
    Faithful (valueOf u / valueOf w) (UnpackedFloat.div .binary64 u w) := by
  match u, w with
  | .zero _, .zero t | .finite .., .zero t => exact absurd (valueOf_zero t) h0
  | .zero s, .finite t n f hn =>
    rw [valueOf_zero, zero_div]
    exact faithful_valueOf (u := .zero (s / t)) trivial
  | .finite s m e hm, .finite t n f hn =>
    have h := faithful_divCore (s / t) hm hn e f
    have hvalue : valueOf (.finite s m e hm) / valueOf (.finite t n f hn) =
        signed (s / t) (m * 2 ^ e / (n * 2 ^ f)) := by
      rw [valueOf, valueOf, apply_mul_eq_signed, apply_mul_eq_signed]
      cases s <;> cases t
      · exact neg_div_neg_eq ..
      · exact neg_div ..
      · exact div_neg ..
      · rfl
    rw [hvalue]
    exact h

/-- A quotient is its exact value as rounded. -/
theorem rounds_div {x y : Float} (hx : x.isFinite = true) (hy : y.isFinite = true)
    (h0 : value y ≠ 0) : Rounds (value x / value y) (x / y) :=
  rounds_of_faithful (faithful_div (isRounded_of_isFinite hx).1 (isRounded_of_isFinite hy).1 h0)

end Quotients

end Double

end LinearProgram
