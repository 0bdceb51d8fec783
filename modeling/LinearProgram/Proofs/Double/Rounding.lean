import LinearProgram.Proofs.Double.Unpacked

/-! # Faithful rounding

Sums, differences and products of doubles are rounded faithfully: no number of the rounded form lies
strictly between the exact result and the rounded one.
-/

namespace LinearProgram

namespace Double

open Float.Model Float.Model.UnpackedFloat

variable {u w : UnpackedFloat} {s : Sign} {m n k : ℕ} {e f : ℤ}

theorem mantissa_shiftRight (m k : ℕ) :
    ((⟨m, false, false⟩ : ExtendedMantissa) >>> k).mantissa = m / 2 ^ k := by
  induction k with
  | zero => exact (Nat.div_one m).symm
  | succ k ih =>
    change ((⟨m, false, false⟩ : ExtendedMantissa) >>> k).mantissa / 2 = _
    rw [ih, Nat.div_div_eq_div_mul, pow_succ]

theorem shiftRight_of_dvd (n k : ℕ) :
    (⟨n * 2 ^ k, false, false⟩ : ExtendedMantissa) >>> k = ⟨n, false, false⟩ := by
  induction k generalizing n with
  | zero => rw [pow_zero, mul_one]; rfl
  | succ k ih =>
    change ((⟨n * 2 ^ (k + 1), false, false⟩ : ExtendedMantissa) >>> k).shiftRightOne = _
    rw [pow_succ', ← mul_assoc, ih]
    simp [ExtendedMantissa.shiftRightOne]

theorem roundedMantissa_bounds (em : ExtendedMantissa) :
    em.mantissa ≤ em.roundedMantissa ∧ em.roundedMantissa ≤ em.mantissa + 1 := by
  obtain ⟨m, roundBit, stickyBit⟩ := em
  cases roundBit <;> cases stickyBit <;>
    simp only [ExtendedMantissa.roundedMantissa, ExtendedMantissa.accuracy,
      Accuracy.roundToNearestEven] <;> omega

/-- A multiple of the unit that is at most the number is at most its rounding. -/
theorem le_roundedMantissa (h : n * 2 ^ k ≤ m) :
    n ≤ ((⟨m, false, false⟩ : ExtendedMantissa) >>> k).roundedMantissa := by
  refine le_trans ?_ (roundedMantissa_bounds _).1
  rw [mantissa_shiftRight]
  exact (Nat.le_div_iff_mul_le (Nat.two_pow_pos k)).mpr h

/-- A multiple of the unit that is at least the number is at least its rounding. -/
theorem roundedMantissa_le (h : m ≤ n * 2 ^ k) :
    ((⟨m, false, false⟩ : ExtendedMantissa) >>> k).roundedMantissa ≤ n := by
  rcases h.eq_or_lt with rfl | hlt
  · rw [shiftRight_of_dvd]
    exact le_rfl
  · refine (roundedMantissa_bounds _).2.trans ?_
    rw [mantissa_shiftRight]
    exact (Nat.div_lt_iff_lt_mul (Nat.two_pow_pos k)).mpr hlt

/-- The exponent at which a magnitude is rounded: its bits beyond the 53rd are dropped, and those
below the least exponent. -/
theorem targetExponent_eq (m : ℕ) (e : ℤ) :
    Format.binary64.targetExponent (totalExponent m e) = max (m.log2 + e - 52) (-1074) := by
  simp only [Format.targetExponent, totalExponent, Format.mantissaBits, Format.minExponent]
  norm_num
  omega

theorem shiftToTargetExponent_eq (m : ℕ) (e : ℤ) :
    shiftToTargetExponent .binary64 m e .exact =
      ((⟨m, false, false⟩ : ExtendedMantissa) >>> (max (m.log2 + e - 52) (-1074) - e).toNat,
        e + (max (m.log2 + e - 52) (-1074) - e).toNat) := by
  rw [shiftToTargetExponent, targetExponent_eq]
  rfl

/-- Nothing more is dropped from 53 bits at an exponent that is not below the least one. -/
theorem shiftToTargetExponent_of_lt (hm : m < 2 ^ 53) (he : -1074 ≤ e) :
    shiftToTargetExponent .binary64 m e .exact = (⟨m, false, false⟩, e) := by
  have hlog : m.log2 ≤ 52 := by
    by_cases h0 : m = 0
    · simp [h0]
    · have := (Nat.log2_lt h0).mpr hm
      omega
  have hzero : (max (m.log2 + e - 52) (-1074) - e).toNat = 0 := by omega
  rw [shiftToTargetExponent_eq, hzero, Nat.cast_zero, add_zero]
  rfl

/-- A carry into the 54th bit is moved to the exponent. -/
theorem shiftToTargetExponent_carry (he : -1074 ≤ e) :
    shiftToTargetExponent .binary64 (2 ^ 53) e .exact = (⟨2 ^ 52, false, false⟩, e + 1) := by
  have hone : (max (((2 ^ 53 : ℕ).log2 : ℤ) + e - 52) (-1074) - e).toNat = 1 := by
    rw [Nat.log2_two_pow]
    omega
  rw [shiftToTargetExponent_eq, hone]
  rfl

theorem roundWithAccuracy_eq (s : Sign) {em em' : ExtendedMantissa} {e₁ e₂ : ℤ}
    (hfirst : shiftToTargetExponent .binary64 m e .exact = (em, e₁))
    (hcarry : shiftToTargetExponent .binary64 em.roundedMantissa e₁ .exact = (em', e₂)) :
    roundWithAccuracy .binary64 s m e .exact = if h : em'.mantissa = 0 then .zero s
      else .finite s em'.mantissa e₂ (Nat.pos_of_ne_zero h) := by
  rw [roundWithAccuracy, hfirst]
  simp only [hcarry]

/-- Rounding a magnitude without bits to spare drops bits until 53 are left, or the least exponent
is reached. -/
theorem exists_rounded (s : Sign) (hm : 0 < m) (hspare : 52 ≤ m.log2 ∨ e ≤ -1074) :
    ∃ k r : ℕ, IsRounded (roundWithAccuracy .binary64 s m e .exact) ∧
      valueOf (roundWithAccuracy .binary64 s m e .exact) = (s.apply r : ℤ) * 2 ^ (e + k) ∧
      (∀ n, n * 2 ^ k ≤ m → n ≤ r) ∧ (∀ n, m ≤ n * 2 ^ k → r ≤ n) ∧
      (2 ^ 52 * 2 ^ k ≤ m ∨ e + k = -1074) := by
  obtain ⟨k, hk⟩ : ∃ k : ℕ, e + k = max (m.log2 + e - 52) (-1074) :=
    ⟨(max (m.log2 + e - 52) (-1074) - e).toNat, by omega⟩
  have hshift : (max (m.log2 + e - 52) (-1074) - e).toNat = k := by omega
  have hkeep : 2 ^ 52 * 2 ^ k ≤ m ∨ e + k = -1074 := by
    by_cases hleast : e + k = -1074
    · exact Or.inr hleast
    · rw [← pow_add]
      exact Or.inl ((Nat.le_log2 hm.ne').mp (by omega))
  have hup : m ≤ 2 ^ 53 * 2 ^ k := by
    rw [← pow_add]
    exact (Nat.log2_lt hm.ne').mp (by omega) |>.le
  let r := ((⟨m, false, false⟩ : ExtendedMantissa) >>> k).roundedMantissa
  have hbits : r ≤ 2 ^ 53 := roundedMantissa_le hup
  have hfull : 2 ^ 52 ≤ r ∨ e + k = -1074 := hkeep.imp_left le_roundedMantissa
  have hfirst : shiftToTargetExponent .binary64 m e .exact =
      ((⟨m, false, false⟩ : ExtendedMantissa) >>> k, e + k) := by
    rw [shiftToTargetExponent_eq, hshift]
  have hleast : -1074 ≤ e + k := by omega
  refine ⟨k, r, ?_⟩
  rw [← and_assoc]
  refine ⟨?_, fun n => le_roundedMantissa, fun n => roundedMantissa_le, hkeep⟩
  rcases hbits.lt_or_eq with hlt | heq
  · rw [roundWithAccuracy_eq s hfirst (shiftToTargetExponent_of_lt hlt hleast)]
    split
    · next h0 =>
      have hr : r = 0 := h0
      rw [hr]
      cases s <;> simp [valueOf, Sign.apply, IsRounded]
    · exact ⟨⟨hlt, hleast, hfull⟩, rfl⟩
  · have hcarry : shiftToTargetExponent .binary64 r (e + k) .exact =
        (⟨2 ^ 52, false, false⟩, e + k + 1) := by rw [heq, shiftToTargetExponent_carry hleast]
    rw [roundWithAccuracy_eq s hfirst hcarry, heq, dif_neg (by norm_num)]
    refine ⟨⟨by norm_num, by omega, Or.inl le_rfl⟩, ?_⟩
    rw [valueOf, zpow_add₀ two_ne_zero (e + k) 1]
    cases s <;> simp only [Sign.apply] <;> push_cast <;> ring

/-- A magnitude of 53 bits is a number of units, or a larger unit is far above it. -/
theorem units_or_lt (hn : n < 2 ^ 53) (hf : -1074 ≤ f) (unit : ℤ) :
    (∃ j : ℕ, (n : ℚ) * 2 ^ f = (n * 2 ^ j : ℕ) * 2 ^ unit) ∨
      unit ≠ -1074 ∧ (n : ℚ) * 2 ^ f < (2 ^ 52 : ℕ) * 2 ^ unit := by
  rcases le_or_gt unit f with hle | hlt
  · obtain ⟨j, rfl⟩ := Int.le.dest hle
    refine Or.inl ⟨j, ?_⟩
    rw [zpow_add₀ two_ne_zero, zpow_natCast]
    push_cast
    ring
  · exact Or.inr ⟨by omega, magnitude_lt hn hf (Or.inl le_rfl) hlt⟩

theorem units_le_iff : (n : ℚ) * 2 ^ (e + k) ≤ m * 2 ^ e ↔ n * 2 ^ k ≤ m := by
  rw [zpow_add₀ two_ne_zero, mul_comm (2 ^ e : ℚ), ← mul_assoc,
    mul_le_mul_iff_left₀ (two_zpow_pos e), zpow_natCast]
  exact_mod_cast Iff.rfl

theorem le_units_iff : (m : ℚ) * 2 ^ e ≤ n * 2 ^ (e + k) ↔ m ≤ n * 2 ^ k := by
  rw [zpow_add₀ two_ne_zero, mul_comm (2 ^ e : ℚ), ← mul_assoc,
    mul_le_mul_iff_left₀ (two_zpow_pos e), zpow_natCast]
  exact_mod_cast Iff.rfl

theorem exists_abs_valueOf (hu : IsRounded u) :
    ∃ n : ℕ, ∃ f : ℤ, n < 2 ^ 53 ∧ -1074 ≤ f ∧ |valueOf u| = n * 2 ^ f := by
  match u with
  | .zero s => exact ⟨0, 0, by norm_num, by norm_num, by rw [valueOf_zero, abs_zero]; simp⟩
  | .finite s m e hm => exact ⟨m, e, hu.1, hu.2.1, abs_valueOf_finite s hm e⟩

/-- The result is a rounding of the value, and no rounded number lies strictly between them. -/
structure Faithful (v : ℚ) (u : UnpackedFloat) : Prop where
  isRounded : IsRounded u
  le : ∀ w, IsRounded w → valueOf w ≤ v → valueOf w ≤ valueOf u
  ge : ∀ w, IsRounded w → v ≤ valueOf w → valueOf u ≤ valueOf w

/-- A rounded number is a faithful rounding of its value. -/
theorem faithful_valueOf (hu : IsRounded u) : Faithful (valueOf u) u :=
  ⟨hu, fun _ _ h => h, fun _ _ h => h⟩

theorem faithful_roundWithAccuracy (s : Sign) (hm : 0 < m) (hspare : 52 ≤ m.log2 ∨ e ≤ -1074) :
    Faithful ((s.apply m : ℤ) * 2 ^ e) (roundWithAccuracy .binary64 s m e .exact) := by
  obtain ⟨k, r, hrounded, hvalue, hlow, hhigh, hkeep⟩ := exists_rounded s hm hspare
  have hmagnitude : ∀ w, IsRounded w →
      (|valueOf w| ≤ m * 2 ^ e → |valueOf w| ≤ r * 2 ^ (e + k)) ∧
        (m * 2 ^ e ≤ |valueOf w| → r * 2 ^ (e + k) ≤ |valueOf w|) := by
    intro w hw
    obtain ⟨n, f, hn, hf, habs⟩ := exists_abs_valueOf hw
    rw [habs]
    rcases units_or_lt hn hf (e + k) with ⟨j, hj⟩ | ⟨hleast, hlt⟩
    · rw [hj, units_le_iff, le_units_iff]
      exact ⟨fun h => mul_le_mul_of_nonneg_right (by exact_mod_cast hlow _ h) (two_zpow_pos _).le,
        fun h => mul_le_mul_of_nonneg_right (by exact_mod_cast hhigh _ h) (two_zpow_pos _).le⟩
    · have hfull := hkeep.resolve_right hleast
      constructor
      · exact fun _ => hlt.le.trans
          (mul_le_mul_of_nonneg_right (by exact_mod_cast hlow _ hfull) (two_zpow_pos _).le)
      · exact fun h => absurd (h.trans_lt hlt) (units_le_iff.mpr hfull).not_gt
  have hμ := magnitude_pos hm e
  have hρ : (0 : ℚ) ≤ r * 2 ^ (e + k) := mul_nonneg (Nat.cast_nonneg r) (two_zpow_pos _).le
  cases s with
  | positive =>
    refine ⟨hrounded, fun w hw h => ?_, fun w hw h => ?_⟩ <;>
      simp only [Sign.apply, Int.cast_natCast] at hvalue h <;> rw [hvalue]
    · rcases le_total 0 (valueOf w) with h0 | h0
      · have := (hmagnitude w hw).1
        rw [abs_of_nonneg h0] at this
        exact this h
      · exact h0.trans hρ
    · have := (hmagnitude w hw).2
      rw [abs_of_nonneg (hμ.le.trans h)] at this
      exact this h
  | negative =>
    refine ⟨hrounded, fun w hw h => ?_, fun w hw h => ?_⟩ <;>
      simp only [Sign.apply, Int.cast_neg, Int.cast_natCast, neg_mul] at hvalue h <;> rw [hvalue]
    · have := (hmagnitude w hw).2
      rw [abs_of_nonpos (by linarith)] at this
      linarith [this (by linarith)]
    · rcases le_total 0 (valueOf w) with h0 | h0
      · linarith
      · have := (hmagnitude w hw).1
        rw [abs_of_nonpos h0] at this
        linarith [this (by linarith)]

theorem cast_decreaseExponent (s : Sign) (m : ℕ) {e target : ℤ} (h : target ≤ e) :
    ((s.apply (decreaseExponent m e target).1 : ℤ) : ℚ) * 2 ^ target =
      (s.apply m : ℤ) * 2 ^ e := by
  obtain ⟨k, rfl⟩ := Int.le.dest h
  have hk : (target + k - target).toNat = k := by omega
  rw [decreaseExponent, hk, Nat.shiftLeft_eq, zpow_add₀ two_ne_zero, zpow_natCast]
  cases s <;> simp only [Sign.apply] <;> push_cast <;> ring

theorem log2_mul_two_pow (hm : 0 < m) (k : ℕ) : (m * 2 ^ k).log2 = m.log2 + k := by
  rw [Nat.log2_eq_iff (Nat.mul_ne_zero hm.ne' (Nat.two_pow_pos k).ne')]
  have hlow := Nat.log2_self_le hm.ne'
  have hhigh := Nat.lt_log2_self (n := m)
  constructor
  · rw [pow_add]
    exact Nat.mul_le_mul_right _ hlow
  · rw [add_right_comm, pow_add]
    exact Nat.mul_lt_mul_of_pos_right hhigh (Nat.two_pow_pos k)

/-- A magnitude with bits to spare is written with a smaller exponent first. -/
theorem faithful_round (s : Sign) (hm : 0 < m) (e : ℤ) :
    Faithful ((s.apply m : ℤ) * 2 ^ e) (UnpackedFloat.round .binary64 s m e) := by
  obtain ⟨k, hk⟩ : ∃ k : ℕ, k = (e - max (m.log2 + e - 52) (-1074)).toNat := ⟨_, rfl⟩
  have hround : UnpackedFloat.round .binary64 s m e =
      roundWithAccuracy .binary64 s (m <<< k) (e - k) .exact := by
    rw [UnpackedFloat.round, targetExponent_eq, decreaseExponent, hk]
  have hlog : (m <<< k).log2 = m.log2 + k := by
    rw [Nat.shiftLeft_eq, log2_mul_two_pow hm]
  have hvalue : ((s.apply (m <<< k : ℕ) : ℤ) : ℚ) * 2 ^ (e - k) = (s.apply m : ℤ) * 2 ^ e := by
    have h := cast_decreaseExponent s m (sub_le_self e (Nat.cast_nonneg (α := ℤ) k))
    rw [decreaseExponent, sub_sub_cancel, Int.toNat_natCast] at h
    exact h
  rw [hround, ← hvalue]
  refine faithful_roundWithAccuracy s ?_ (by omega)
  rw [Nat.shiftLeft_eq]
  positivity

theorem faithful_normalize (m e : ℤ) (zeroSign : Sign) :
    Faithful (m * 2 ^ e) (UnpackedFloat.normalize .binary64 m e zeroSign) := by
  rw [UnpackedFloat.normalize]
  rcases lt_trichotomy m 0 with hlt | rfl | hgt
  · rw [compare_lt_iff_lt.mpr hlt]
    have h := faithful_round .negative (m := (-m).toNat) (by omega) e
    rwa [Sign.apply, Int.toNat_of_nonneg (by omega), neg_neg] at h
  · rw [compare_eq_iff_eq.mpr rfl, Int.cast_zero, zero_mul]
    exact faithful_valueOf (u := .zero zeroSign) trivial
  · rw [compare_gt_iff_gt.mpr hgt]
    have h := faithful_round .positive (m := m.toNat) (by omega) e
    rwa [Sign.apply, Int.toNat_of_nonneg (by omega)] at h

theorem faithful_add (hu : IsRounded u) (hw : IsRounded w) :
    Faithful (valueOf u + valueOf w) (UnpackedFloat.add .binary64 u w) := by
  match u, w with
  | .zero s, .zero t =>
    rw [valueOf_zero, valueOf_zero, add_zero]
    cases s <;> cases t <;> exact faithful_valueOf (u := .zero _) trivial
  | .zero s, .finite t n f hn =>
    rw [valueOf_zero, zero_add]
    exact faithful_valueOf hw
  | .finite s m e hm, .zero t =>
    rw [valueOf_zero, add_zero]
    exact faithful_valueOf hu
  | .finite s m e hm, .finite t n f hn =>
    have h := faithful_normalize (s.apply (decreaseExponent m e (min e f)).1 +
      t.apply (decreaseExponent n f (min e f)).1) (min e f) .positive
    rw [Int.cast_add, add_mul, cast_decreaseExponent s m (min_le_left ..),
      cast_decreaseExponent t n (min_le_right ..)] at h
    exact h

theorem isRounded_neg (hu : IsRounded u) : IsRounded u.neg := by
  cases u <;> exact hu

theorem valueOf_neg (u : UnpackedFloat) : valueOf u.neg = -valueOf u := by
  match u with
  | .finite .positive m e hm => exact valueOf_negative hm
  | .finite .negative m e hm => rw [valueOf_negative, neg_neg]; rfl
  | .zero _ | .infinity _ | .notANumber => exact neg_zero.symm

theorem sub_eq_add (u w : UnpackedFloat) :
    UnpackedFloat.sub .binary64 u w = UnpackedFloat.add .binary64 u w.neg := by
  have happly : ∀ (s : Sign) (n : ℤ), (-s).apply n = -s.apply n := by
    intro s n
    cases s
    · exact (neg_neg n).symm
    · rfl
  match u, w with
  | .finite s m e _, .finite t n f _ =>
    simp only [UnpackedFloat.sub, UnpackedFloat.add, UnpackedFloat.neg, happly, Int.sub_eq_add_neg]
  | .notANumber, _ => cases w <;> rfl
  | .infinity _, .infinity _ | .infinity _, .notANumber | .infinity _, .finite .. => rfl
  | .infinity _, .zero _ | .zero _, .notANumber | .zero _, .finite .. | .zero _, .zero _ => rfl
  | .zero _, .infinity _ | .finite .., .notANumber | .finite .., .zero _ => rfl
  | .finite .., .infinity _ => rfl

theorem faithful_sub (hu : IsRounded u) (hw : IsRounded w) :
    Faithful (valueOf u - valueOf w) (UnpackedFloat.sub .binary64 u w) := by
  rw [sub_eq_add, sub_eq_add_neg, ← valueOf_neg]
  exact faithful_add hu (isRounded_neg hw)

theorem apply_mul (s t : Sign) (m n : ℤ) : (s * t).apply (m * n) = s.apply m * t.apply n := by
  cases s <;> cases t
  · exact (neg_mul_neg m n).symm
  · exact (neg_mul m n).symm
  · exact (mul_neg m n).symm
  · rfl

theorem faithful_mul (hu : IsRounded u) (hw : IsRounded w) :
    Faithful (valueOf u * valueOf w) (UnpackedFloat.mul .binary64 u w) := by
  match u, w with
  | .zero s, .zero t =>
    rw [valueOf_zero, zero_mul]
    exact faithful_valueOf (u := .zero (s * t)) trivial
  | .zero s, .finite t n f hn =>
    rw [valueOf_zero, zero_mul]
    exact faithful_valueOf (u := .zero (s * t)) trivial
  | .finite s m e hm, .zero t =>
    rw [valueOf_zero, mul_zero]
    exact faithful_valueOf (u := .zero (s * t)) trivial
  | .finite s m e hm, .finite t n f hn =>
    have hspare : 52 ≤ (m * n).log2 ∨ e + f ≤ -1074 := by
      rw [Nat.le_log2 (Nat.mul_pos hm hn).ne']
      rcases hu.2.2 with hfull | rfl
      · exact Or.inl (hfull.trans (Nat.le_mul_of_pos_right m hn))
      · rcases hw.2.2 with hfull | rfl
        · exact Or.inl (hfull.trans (Nat.le_mul_of_pos_left n hm))
        · exact Or.inr (by norm_num)
    have h := faithful_roundWithAccuracy (s * t) (Nat.mul_pos hm hn) hspare
    have hvalue : (((s * t).apply (m * n : ℕ) : ℤ) : ℚ) * 2 ^ (e + f) =
        ((s.apply m : ℤ) * 2 ^ e) * ((t.apply n : ℤ) * 2 ^ f) := by
      rw [Nat.cast_mul, apply_mul, Int.cast_mul, zpow_add₀ two_ne_zero]
      ring
    rw [hvalue] at h
    exact h

end Double

end LinearProgram
