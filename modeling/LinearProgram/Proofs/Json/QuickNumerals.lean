import LinearProgram.Proofs.Double.Bounds
import LinearProgram.Proofs.Json.OtherNumbers

/-! # Numerals read quickly

The quick way to find the double of a numeral rounds up to three times. Each of the steps stays near
the number of the first digits. The text of a double that is not among the largest is therefore read
as a finite double, if not always as the same.
-/

namespace LinearProgram

open Float.Model Double

namespace Json

section Digits

variable {n : ℕ} {ds : List Char}

theorem value_append_cons (n : ℕ) (d : Char) (ds : List Char) :
    (10 * n + Digits.value [d]) * 10 ^ ds.length + Digits.value ds =
      n * 10 ^ (d :: ds).length + Digits.value (d :: ds) := by
  rw [← List.singleton_append (l := ds), Digits.value_append, List.length_append,
    List.length_singleton]
  ring

/-- The digits that are appended are the first ones, and what they are appended to still fits. -/
theorem exists_appendDigits (hn : n < wordBound) (ds : List Char) : ∃ taken left,
    ds = taken ++ left ∧ appendDigits n ds = (n * 10 ^ taken.length + Digits.value taken, left) ∧
      n * 10 ^ taken.length + Digits.value taken < wordBound := by
  induction ds generalizing n with
  | nil =>
    exact ⟨[], [], rfl, by simp [appendDigits, Digits.value], by simpa [Digits.value] using hn⟩
  | cons d ds ih =>
    rw [appendDigits]
    split
    · next hnext =>
      obtain ⟨taken, left, rfl, hread, hlt⟩ := ih hnext
      rw [value_append_cons] at hread hlt
      exact ⟨d :: taken, left, rfl, hread, hlt⟩
    · exact ⟨[], d :: ds, rfl, by simp [Digits.value], by simpa [Digits.value] using hn⟩

/-- Digits that fit are all appended. -/
theorem appendDigits_eq (h : n * 10 ^ ds.length + Digits.value ds < wordBound) :
    appendDigits n ds = (n * 10 ^ ds.length + Digits.value ds, []) := by
  induction ds generalizing n with
  | nil => simp [appendDigits, Digits.value]
  | cons d ds ih =>
    rw [← value_append_cons] at h ⊢
    have hnext : 10 * n + Digits.value [d] < wordBound := by
      have hpos := Nat.le_mul_of_pos_right (10 * n + Digits.value [d])
        (Nat.pow_pos (n := ds.length) (by decide : 0 < 10))
      omega
    rw [appendDigits, if_pos hnext]
    exact ih h

end Digits

/-- The first digits of a numeral are a number of 64 bits and not larger than the numeral. -/
theorem Numeral.significand_le {q : Numeral} (hq : Digits.value q.whole < wordBound) :
    q.significand.1 < wordBound ∧
      Decimal.scaled q.significand.1 q.significand.2 ≤ q.decimal.size := by
  have hwhole := @appendDigits_eq 0 q.whole (by simpa using hq)
  rw [zero_mul, zero_add] at hwhole
  obtain ⟨taken, left, hfraction, hread, hlt⟩ := exists_appendDigits hq q.fraction
  rw [← Digits.value_append] at hread hlt
  rw [hfraction] at hread
  have hsignificand : q.significand =
      (Digits.value (q.whole ++ taken), q.exponent.getD 0 - taken.length) := by
    rw [significand, hwhole]
    simp only [hfraction, hread, List.length_append, List.length_nil]
    congr 1
    omega
  rw [hsignificand]
  refine ⟨hlt, ?_⟩
  have hleft : q.exponent.getD 0 - taken.length =
      q.exponent.getD 0 - (taken ++ left).length + left.length := by
    rw [List.length_append]
    omega
  rw [hleft, ← Decimal.scaled_mul_pow, Decimal.size, decimal, hfraction, ← List.append_assoc,
    Digits.value_append (q.whole ++ taken)]
  exact mul_le_mul_of_nonneg_right (Nat.cast_le.mpr (Nat.le_add_right _ _))
    (Decimal.ten_zpow_pos _).le

section Powers

/-- Beyond the powers that are kept in a table, a power of ten is rounded from the exact one. -/
theorem rounds_powerOfTen {k : ℕ} (hlow : 22 < k) (hhigh : k ≤ 2048) :
    Rounds (10 ^ k) (powerOfTen k) := by
  have hmodel : powerOfTen k = ⟨Float.Model.pack (UnpackedFloat.ofScientific .binary64 1 k)⟩ :=
    dif_neg fun h => absurd h.2 (not_le.mpr hlow)
  have hexact : UnpackedFloat.ofScientific .binary64 1 k =
      UnpackedFloat.roundWithAccuracy .binary64 .positive (2 ^ 53 * 10 ^ k) (-53) .exact := by
    have hsmall : ¬ (k : ℤ) > 2 ^ 11 := by omega
    have hlarge : ¬ (k : ℤ) < -((2 ^ 11 : ℤ) + (1 : ℕ).log2) := by
      have hlog : (0 : ℤ) ≤ (1 : ℕ).log2 := Nat.cast_nonneg _
      omega
    exact (dif_neg one_ne_zero).trans
      ((if_neg hsmall).trans ((if_neg hlarge).trans (if_pos (Nat.cast_nonneg k))))
  have hpos : 0 < 2 ^ 53 * 10 ^ k := by positivity
  have hspare : 52 ≤ (2 ^ 53 * 10 ^ k).log2 ∨ (-53 : ℤ) ≤ -1074 := by
    refine .inl ((Nat.le_log2 hpos.ne').mpr ?_)
    exact Nat.le_trans (by decide) (Nat.le_mul_of_pos_right (2 ^ 53) (Nat.pow_pos (by decide)))
  have hfaithful := faithful_roundWithAccuracy .positive hpos hspare
  have hvalue : (((2 ^ 53 * 10 ^ k : ℕ) : ℤ) : ℚ) * 2 ^ (-53 : ℤ) = 10 ^ k := by
    push_cast
    rw [mul_right_comm]
    norm_num
  rw [hmodel, hexact, ← hvalue]
  exact rounds_of_faithful hfaithful

/-- Powers of ten up to the greatest are doubles, nearly. -/
theorem powerOfTen_bounds {k : ℕ} (hk : k ≤ greatestPower) : (powerOfTen k).isFinite = true ∧
    1 ≤ value (powerOfTen k) ∧ value (powerOfTen k) ≤ 2 * 10 ^ k := by
  rcases Nat.lt_or_ge 22 k with hlarge | hsmall
  · rcases hk.lt_or_eq with hlt | rfl
    · have hround := rounds_powerOfTen hlarge (Nat.le_trans hk (by decide))
      have hpos : 0 < 10 ^ k := Nat.pow_pos (by decide)
      have hlog : (10 ^ k).log2 < 1020 := by
        -- the power has a name, so that it is not computed by tactics
        obtain ⟨m, hm⟩ : ∃ m, m = 307 := ⟨_, rfl⟩
        have htop : (10 ^ m).log2 < 1020 := by
          rw [hm]
          decide +kernel
        have hkm : k ≤ m := hm ▸ Nat.le_of_lt_succ hlt
        refine Nat.lt_of_le_of_lt ?_ htop
        rw [Nat.log2_eq_log_two, Nat.log2_eq_log_two]
        exact Nat.log_mono_right (Nat.pow_le_pow_right (by decide) hkm)
      have hhigh : (10 : ℚ) ^ k ≤ 2 ^ ((10 ^ k).log2 + 1) := by exact_mod_cast Nat.lt_log2_self.le
      obtain ⟨hfinite, hbound⟩ := hround.within (by rwa [abs_of_pos (by positivity)]) (by omega)
      have hone := hround.le_abs hfinite (e := 0)
        (by simpa using one_le_pow₀ (by norm_num : (1 : ℚ) ≤ 10)) (by norm_num) (by norm_num)
      rw [abs_of_nonneg (hround.nonneg hfinite (by positivity))] at hbound hone
      have hself : (2 : ℚ) ^ (10 ^ k).log2 ≤ 10 ^ k := by exact_mod_cast Nat.log2_self_le hpos.ne'
      refine ⟨hfinite, by simpa using hone, hbound.trans ?_⟩
      rw [pow_succ']
      exact mul_le_mul_of_nonneg_left hself zero_le_two
    · decide +kernel
  · have hall : ∀ k : Fin 23, (powerOfTen k).isFinite = true ∧ 1 ≤ value (powerOfTen k) ∧
        value (powerOfTen k) ≤ 2 * 10 ^ k.val := by decide +kernel
    exact hall ⟨k, Nat.lt_succ_of_le hsmall⟩

theorem within_divideByPower {x : Float} (hx : Within 64 x) (n : ℕ) :
    Within 64 (divideByPower x n) := by
  have hstep : ∀ {x k}, Within 64 x → k ≤ greatestPower → Within 64 (x / powerOfTen k) := by
    intro x k hx hk
    obtain ⟨hfinite, hlow, -⟩ := powerOfTen_bounds hk
    exact hx.div (j := 0) hfinite (by simpa using hlow.trans (le_abs_self _)) (by norm_num)
  induction x, n using divideByPower.induct with
  | case1 x n hn =>
    rw [divideByPower, if_pos hn]
    exact hstep hx hn
  | case2 x n hn hzero =>
    rw [divideByPower, if_neg hn, if_pos hzero]
    exact hx
  | case3 x n hn hzero ih =>
    rw [divideByPower, if_neg hn, if_neg hzero]
    exact ih (hstep hx le_rfl)

theorem log2_lt {n : ℕ} (hn : n < wordBound) : n.log2 < 64 := by
  rcases Nat.eq_zero_or_pos n with rfl | hpos
  · simp
  · exact (Nat.log2_lt hpos.ne').mpr hn

/-- The double of a number of 64 bits. -/
theorem within_toFloat {n : ℕ} (hn : n < wordBound) :
    Within (n.log2 + 1) n.toUInt64.toFloat := by
  have hfaithful := faithful_normalize n 0 .positive
  have hnat : n.toUInt64.toNat = n := Nat.mod_eq_of_lt hn
  have hround : Rounds n n.toUInt64.toFloat := by
    change Rounds n ⟨Float.Model.pack (UnpackedFloat.normalize .binary64 n.toUInt64.toNat 0
      .positive)⟩
    rw [hnat]
    simpa using rounds_of_faithful hfaithful
  refine hround.within ?_ ?_
  · rw [abs_of_nonneg (Nat.cast_nonneg n)]
    exact_mod_cast Nat.lt_log2_self.le
  · have := log2_lt hn
    omega

/-- Powers of ten beyond the greatest are out of reach. -/
theorem two_pow_lt {m k : ℕ} (hm : m ≤ 1021) (hk : greatestPower < k) : (2 : ℚ) ^ m < 10 ^ k := by
  calc (2 : ℚ) ^ m ≤ 2 ^ (93 * 11) := pow_le_pow_right₀ one_le_two (by omega)
    _ = (2 ^ 93) ^ 11 := pow_mul 2 93 11
    _ ≤ (10 ^ 28) ^ 11 := pow_le_pow_left₀ (by norm_num) (by norm_num) 11
    _ = 10 ^ (28 * 11) := (pow_mul 10 28 11).symm
    _ < 10 ^ k := pow_lt_pow_right₀ (by norm_num) hk

section Bounded

variable {n m : ℕ} (hn : n < wordBound) (hm : m ≤ 1021)

include hn hm

theorem within_multiplyByPower {k : ℕ} (hsize : (n : ℚ) * 10 ^ k ≤ 2 ^ m) :
    Within (max 64 (m + 2)) (multiplyByPower n.toUInt64.toFloat k) := by
  have hx := within_toFloat hn
  have hlog := log2_lt hn
  rcases Nat.eq_zero_or_pos n with rfl | hpos
  · have hzero : HasValue (Nat.toUInt64 0).toFloat 0 := ⟨by decide +kernel, by decide +kernel⟩
    rw [multiplyByPower]
    split
    · next hk =>
      refine (rounds_mul hzero.1 (powerOfTen_bounds hk).1).within ?_ (by omega)
      rw [hzero.2, zero_mul, abs_zero]
      positivity
    · rw [if_pos (by decide +kernel)]
      exact hx.mono (by omega)
  · have hk : k ≤ greatestPower := by
      by_contra hlarge
      have hlt := two_pow_lt hm (not_le.mp hlarge)
      have hmul := le_mul_of_one_le_left (pow_nonneg (by norm_num : (0 : ℚ) ≤ 10) k)
        (Nat.one_le_cast.mpr hpos)
      exact absurd (hmul.trans hsize) hlt.not_ge
    obtain ⟨hfinite, hlow, hhigh⟩ := powerOfTen_bounds hk
    rw [multiplyByPower, if_pos hk]
    have hself : (2 : ℚ) ^ n.log2 ≤ n := by exact_mod_cast Nat.log2_self_le hpos.ne'
    have hproduct : |value n.toUInt64.toFloat * value (powerOfTen k)| ≤ 2 ^ (m + 2) := by
      rw [abs_mul, abs_of_nonneg (zero_le_one.trans hlow)]
      calc |value n.toUInt64.toFloat| * value (powerOfTen k)
          ≤ 2 ^ (n.log2 + 1) * (2 * 10 ^ k) :=
            mul_le_mul hx.2 hhigh (zero_le_one.trans hlow) (by positivity)
        _ = 4 * (2 ^ n.log2 * 10 ^ k) := by ring
        _ ≤ 4 * (n * 10 ^ k) := by gcongr
        _ ≤ 4 * 2 ^ m := by gcongr
        _ = 2 ^ (m + 2) := by ring
    exact ((rounds_mul hx.1 hfinite).within hproduct (by omega)).mono (le_max_right _ _)

theorem within_scaleByPower {exponent : ℤ} (hsize : Decimal.scaled n exponent ≤ 2 ^ m) :
    Within (max 64 (m + 2)) (scaleByPower n.toUInt64.toFloat exponent) := by
  rw [scaleByPower]
  split
  · have hx := (within_toFloat hn).mono (Nat.succ_le_of_lt (log2_lt hn))
    exact (within_divideByPower hx _).mono (le_max_left _ _)
  · next hnonneg =>
    refine within_multiplyByPower hn hm ?_
    rwa [← zpow_natCast, Int.natAbs_of_nonneg (not_lt.mp hnonneg)]

end Bounded

end Powers

/-- A numeral that is not too large is read quickly as a finite double. -/
theorem Numeral.isFinite_quick {q : Numeral} (hq : Digits.value q.whole < wordBound) {m : ℕ}
    (hm : m ≤ 1021) (hsize : q.decimal.size ≤ 2 ^ m) : q.quick.isFinite = true := by
  obtain ⟨hlt, hle⟩ := significand_le hq
  have hscaled := within_scaleByPower hlt hm (hle.trans hsize)
  rw [quick]
  dsimp only
  split
  · exact hscaled.neg.1
  · exact hscaled.1

/-- The text of a double up to `2 ^ 1020` is read quickly as a finite double. -/
theorem readsFinite_quick {x : Float} {m : ℕ} (hx : Within m x) (hm : m ≤ 1020) :
    ReadsFinite Numeral.quick x := by
  obtain ⟨-, q, -, ⟨hwhole, hsize⟩, hread⟩ := Number.exists_numeral_float hx.1
  have hend := hread [] ends_nil
  rw [List.append_nil] at hend
  have hbound : q.decimal.size ≤ 2 ^ (m + 1) := by
    rw [pow_succ']
    exact hsize.trans (mul_le_mul_of_nonneg_left hx.2 zero_le_two)
  refine ⟨q.quick, Numeral.isFinite_quick hwhole (Nat.succ_le_succ hm) hbound, ?_⟩
  rw [ReadsAs, hend]
  rfl

end Json

end LinearProgram
